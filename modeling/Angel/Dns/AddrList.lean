import Angel.Dns.Cache
import Angel.Dns.Answers
import Mathlib.Order.Bounds.Basic

/-!
`resolver::get_addr_list`: the addresses of a name from the cache or from the
records of an answer, which are stored for the least time that one of them lives.
In the running minimum zero stands for a time that is not set yet, and it is also
the time of a record that is not to be stored.
-/

namespace Angel.Dns

/-- `as_a()->addr` of a record of type `A`. -/
def Record.addr (item : Record) : Bytes :=
  match item.rdata with
  | .a addr => addr
  | _ => []

/-- The new `min_ttl`. -/
def runningTtl (minTtl ttl : Nat) : Nat := if minTtl = 0 then ttl else min minTtl ttl

/-- A pass of the loop over the records, with `res` and `min_ttl`. -/
def addrPass (s : List Bytes × Nat) (item : Record) : List Bytes × Nat :=
  if item.base.type = RrType.A.code then (s.1 ++ [item.addr], runningTtl s.2 item.base.ttl) else s

/-- `get_addr_list`, with the result of the query unless its future is not valid or
not ready in time. -/
def getAddrList (now : Int) (name : Bytes) (answer : Option (List Record)) (c : Cache) :
    List Bytes × Cache :=
  match c.get name with
  | some item => (item.addrList, c)
  | none =>
      match answer with
      | none => ([], c)
      | some records =>
          let (res, minTtl) := records.foldl addrPass ([], 0)
          (res, if 0 < minTtl then c.put now name res minTtl else c)

def addrRecords (records : List Record) : List Record :=
  records.filter fun item => item.base.type = RrType.A.code

/-- The addresses of an answer. -/
def addrs (records : List Record) : List Bytes := (addrRecords records).map Record.addr

/-- Their times to live. -/
def ttls (records : List Record) : List Nat := (addrRecords records).map fun item => item.base.ttl

/-- The time to store the addresses of an answer for: the least one, if there is one
and none is zero. -/
def StoredFor (records : List Record) (ttl : Nat) : Prop :=
  0 ∉ ttls records ∧ IsLeast {t | t ∈ ttls records} ttl

/-- The cache when the addresses are stored for that time, or not at all. -/
def Cache.stored (now : Int) (name : Bytes) (addrList : List Bytes) (c : Cache) : Option Nat → Cache
  | none => c
  | some ttl => c.put now name addrList ttl

/-- The addresses are stored for the time to store them for, in whatever order their
records come. -/
def StoresMinimum (now : Int) (name : Bytes) (c : Cache) (records : List Record) : Prop :=
  ∃ time : Option Nat, (∀ ttl, time = some ttl ↔ StoredFor records ttl) ∧
    ∀ records', records'.Perm records →
      (getAddrList now name (some records') c).2 = c.stored now name (addrs records') time

private theorem runningTtl_eq_zero_iff {minTtl ttl : Nat} :
    runningTtl minTtl ttl = 0 ↔ ttl = 0 := by
  unfold runningTtl
  split <;> omega

theorem foldl_runningTtl_concat (minTtl ttl : Nat) (times : List Nat) :
    (times ++ [ttl]).foldl runningTtl minTtl = 0 ↔ ttl = 0 := by
  rw [List.foldl_append, List.foldl_cons, List.foldl_nil, runningTtl_eq_zero_iff]

private theorem foldl_runningTtl_isLeast {minTtl : Nat} {times : List Nat} (hset : minTtl ≠ 0)
    (htimes : 0 ∉ times) :
    IsLeast {t | t ∈ minTtl :: times} (times.foldl runningTtl minTtl) := by
  induction times generalizing minTtl with
  | nil =>
      refine ⟨List.mem_singleton_self _, ?_⟩
      intro t ht
      exact (List.mem_singleton.mp ht).ge
  | cons ttl times ih =>
      obtain ⟨httl, htimes⟩ := not_or.mp (List.mem_cons.not.mp htimes)
      have hnext : runningTtl minTtl ttl = min minTtl ttl := if_neg hset
      have hstays : min minTtl ttl ≠ 0 := by omega
      obtain ⟨hmem, hleast⟩ := ih hstays htimes
      rw [List.foldl_cons, hnext]
      constructor
      · rcases List.mem_cons.mp hmem with hmin | hlater
        · rcases min_choice minTtl ttl with hfirst | hsecond
          · exact List.mem_cons.mpr (.inl (hmin.trans hfirst))
          · exact List.mem_cons_of_mem _ (List.mem_cons.mpr (.inl (hmin.trans hsecond)))
        · exact List.mem_cons_of_mem _ (List.mem_cons_of_mem _ hlater)
      · intro t ht
        have hbound := hleast List.mem_cons_self
        rcases List.mem_cons.mp ht with rfl | ht
        · exact hbound.trans (min_le_left _ _)
        rcases List.mem_cons.mp ht with rfl | ht
        · exact hbound.trans (min_le_right _ _)
        · exact hleast (List.mem_cons_of_mem _ ht)

theorem foldl_runningTtl_least {times : List Nat} (hne : times ≠ []) (htimes : 0 ∉ times) :
    IsLeast {t | t ∈ times} (times.foldl runningTtl 0) := by
  obtain ⟨ttl, times, rfl⟩ := List.exists_cons_of_ne_nil hne
  obtain ⟨httl, htimes⟩ := not_or.mp (List.mem_cons.not.mp htimes)
  exact foldl_runningTtl_isLeast (Ne.symm httl) htimes

theorem foldl_runningTtl_zeros {times : List Nat} (h : ∀ t ∈ times, t = 0) :
    times.foldl runningTtl 0 = 0 := by
  induction times with
  | nil => rfl
  | cons ttl times ih =>
      obtain ⟨rfl, hrest⟩ := List.forall_mem_cons.mp h
      exact ih hrest

private theorem foldl_addrPass (records : List Record) (s : List Bytes × Nat) :
    records.foldl addrPass s = (s.1 ++ addrs records, (ttls records).foldl runningTtl s.2) := by
  induction records generalizing s with
  | nil => simp [addrs, ttls, addrRecords]
  | cons item records ih =>
      rw [List.foldl_cons, ih]
      by_cases htype : item.base.type = RrType.A.code
      · simp [addrPass, addrs, ttls, addrRecords, htype]
      · simp [addrPass, addrs, ttls, addrRecords, htype]

theorem getAddrList_snd (now : Int) {name : Bytes} {c : Cache} (hfree : c.get name = none)
    (records : List Record) :
    (getAddrList now name (some records) c).2 =
      if (ttls records).foldl runningTtl 0 = 0 then c
      else c.put now name (addrs records) ((ttls records).foldl runningTtl 0) := by
  unfold getAddrList
  rw [hfree]
  simp only [foldl_addrPass, List.nil_append, Nat.pos_iff_ne_zero, ite_not]

theorem put_ne_self {now : Int} {name : Bytes} {c : Cache} (hfree : c.get name = none)
    (addrList : List Bytes) (ttl : Nat) : c.put now name addrList ttl ≠ c := by
  intro hsame
  have hget := Cache.get_put now name addrList ttl c
  rw [hsame, hfree] at hget
  cases hget

theorem ttls_perm {records records' : List Record} (h : records'.Perm records) :
    (ttls records').Perm (ttls records) :=
  (h.filter _).map _

private theorem mem_ttls {records : List Record} {ttl : Nat} (h : ttl ∈ ttls records) :
    ∃ item ∈ records, item.base.type = RrType.A.code ∧ item.base.ttl = ttl := by
  obtain ⟨item, hitem, rfl⟩ := List.mem_map.mp h
  obtain ⟨hmem, htype⟩ := List.mem_filter.mp hitem
  exact ⟨item, hmem, of_decide_eq_true htype, rfl⟩

private theorem perm_with_last {records : List Record} {ttl : Nat} (h : ttl ∈ ttls records) :
    ∃ records', records'.Perm records ∧ ∃ times, ttls records' = times ++ [ttl] := by
  obtain ⟨item, hmem, htype, rfl⟩ := mem_ttls h
  refine ⟨records.erase item ++ [item], ?_, ttls (records.erase item), ?_⟩
  · exact (List.perm_append_singleton _ _).trans (List.perm_cons_erase hmem).symm
  · simp [ttls, addrRecords, htype]

section

variable (now : Int) {name : Bytes} {c : Cache} {records : List Record}

theorem not_storesMinimum (hfree : c.get name = none) (hzero : 0 ∈ ttls records) {ttl : Nat}
    (httl : ttl ∈ ttls records) (hne : ttl ≠ 0) : ¬ StoresMinimum now name c records := by
  rintro ⟨time, _, horders⟩
  obtain ⟨first, hfirst, times, htimes⟩ := perm_with_last hzero
  obtain ⟨second, hsecond, times', htimes'⟩ := perm_with_last httl
  have hkept := horders first hfirst
  rw [getAddrList_snd now hfree, htimes, if_pos ((foldl_runningTtl_concat _ _ _).mpr rfl)] at hkept
  have hput := horders second hsecond
  rw [getAddrList_snd now hfree, htimes',
    if_neg fun h => hne ((foldl_runningTtl_concat _ _ _).mp h)] at hput
  cases time with
  | none => exact put_ne_self hfree _ _ hput
  | some ttl => exact put_ne_self hfree _ _ hkept.symm

private theorem storesMinimum_of_positive (hfree : c.get name = none) (hne : ttls records ≠ [])
    (hnone : 0 ∉ ttls records) : StoresMinimum now name c records := by
  have hleast := foldl_runningTtl_least hne hnone
  refine ⟨some ((ttls records).foldl runningTtl 0), fun ttl => ?_, fun records' hperm => ?_⟩
  · constructor
    · intro htime
      obtain rfl := Option.some.inj htime
      exact ⟨hnone, hleast⟩
    · intro h
      exact congrArg some (hleast.unique h.2)
  · have hperm := ttls_perm hperm
    have hne' : ttls records' ≠ [] := fun hnil => hne (hnil ▸ hperm).nil_eq.symm
    have hleast' := foldl_runningTtl_least hne' fun h => hnone (hperm.mem_iff.mp h)
    have hsame : (ttls records').foldl runningTtl 0 = (ttls records).foldl runningTtl 0 := by
      apply hleast'.unique
      simpa only [hperm.mem_iff] using hleast
    have hset : (ttls records).foldl runningTtl 0 ≠ 0 := by
      intro hzero
      exact hnone (hzero ▸ hleast.1)
    rw [getAddrList_snd now hfree, hsame, if_neg hset]
    rfl

private theorem storesMinimum_of_zeros (hfree : c.get name = none)
    (hall : ∀ ttl ∈ ttls records, ttl = 0) :
    StoresMinimum now name c records := by
  refine ⟨none, fun ttl => ?_, fun records' hperm => ?_⟩
  · refine iff_of_false nofun fun h => ?_
    have hmem := h.2.1
    exact h.1 (hall ttl hmem ▸ hmem)
  · have hperm := ttls_perm hperm
    rw [getAddrList_snd now hfree,
      if_pos (foldl_runningTtl_zeros fun t ht => hall t (hperm.mem_iff.mp ht))]
    rfl

end

/-- The addresses are stored for the least time in every order of the records exactly
when a record that is not to be stored has only such records beside it. -/
theorem storesMinimum_iff (now : Int) (name : Bytes) (c : Cache) (hfree : c.get name = none)
    (records : List Record) :
    StoresMinimum now name c records ↔ (0 ∈ ttls records → ∀ ttl ∈ ttls records, ttl = 0) := by
  constructor
  · intro hstores hzero ttl httl
    by_contra hne
    exact not_storesMinimum now hfree hzero httl hne hstores
  · intro hzeros
    by_cases hstored : ttls records ≠ [] ∧ 0 ∉ ttls records
    · exact storesMinimum_of_positive now hfree hstored.1 hstored.2
    · apply storesMinimum_of_zeros now hfree
      intro ttl httl
      apply hzeros _ ttl httl
      by_contra hnone
      exact hstored ⟨List.ne_nil_of_mem httl, hnone⟩

/-- A record of type `A` for that time. -/
def addressFor (addr : String) (ttl : Nat) : Record :=
  ⟨⟨ascii "a", RrType.A.code, 1, ttl, 4⟩, .a (ascii addr)⟩

theorem storesMinimum_two :
    StoresMinimum 0 (ascii "a") ⟨fun _ => none⟩ [addressFor "10.0.0.1" 60, addressFor "10.0.0.2" 30] := by
  refine (storesMinimum_iff 0 (ascii "a") ⟨fun _ => none⟩ rfl _).mpr fun hzero => ?_
  revert hzero
  decide

/-- A record that is not to be stored, in front of one that is: the addresses are
stored. -/
theorem storesMinimum_fails :
    ¬ StoresMinimum 0 (ascii "a") ⟨fun _ => none⟩ [addressFor "10.0.0.1" 0, addressFor "10.0.0.2" 60] := by
  rintro ⟨time, htime, horders⟩
  have hnone : time = none := by
    rw [Option.eq_none_iff_forall_ne_some]
    intro ttl hsome
    exact ((htime ttl).mp hsome).1 (by decide)
  have hkept := horders _ (List.Perm.refl _)
  rw [hnone] at hkept
  have hget := congrArg (fun c => (c.get (ascii "a")).isSome) hkept
  revert hget
  decide

end Angel.Dns
