import Angel.Lib.Run
import Angel.Util.Conf
import Mathlib.Data.Set.List
import Mathlib.Logic.Function.Basic
import Mathlib.Tactic.Common

/-!
`mimetypes`: the extensions of each media type, and a multimap from an extension to its
types. `load` takes a type that is there already out of both, and from the multimap by its
extensions, whatever type an entry is for.
-/

namespace Angel.Mime

open Lib

/-- A line of a configuration, as `parse_conf` splits it: no word is empty. -/
structure ConfigParam where
  type : Bytes
  exts : List Bytes
  exts_ne : [] ∉ exts

structure Mimetypes where
  mimeTypes : Bytes → Option (List Bytes)
  fileExtensions : List (Bytes × Bytes)

/-- What is behind the last dot. -/
def getSuffix (filename : Bytes) : Bytes :=
  if '.'.toNat.toUInt8 ∈ filename then
    (filename.reverse.takeWhile (· ≠ '.'.toNat.toUInt8)).reverse
  else []

/-- `get_mime_type`, for the order in which the entries of the multimap are found. -/
def getMimeType (fileExtensions : List (Bytes × Bytes)) (filename : Bytes) : Option Bytes :=
  let suffix := getSuffix filename
  if suffix = [] then none else (fileExtensions.find? (·.1 = suffix)).map (·.2)

namespace Mimetypes

def empty : Mimetypes where
  mimeTypes := fun _ => none
  fileExtensions := []

def addExt (type : Bytes) (t : Mimetypes) (ext : Bytes) : Mimetypes where
  mimeTypes := Function.update t.mimeTypes type (some ((t.mimeTypes type).getD [] ++ [ext]))
  fileExtensions := t.fileExtensions ++ [(ext, type)]

def addArgs (t : Mimetypes) (args : ConfigParam) : Mimetypes := args.exts.foldl (addExt args.type) t

/-- The constructor. -/
def construct (conf : List ConfigParam) : Mimetypes := conf.foldl addArgs empty

/-- The entries of a type that is overwritten. -/
def erase (type : Bytes) (t : Mimetypes) : Mimetypes :=
  match t.mimeTypes type with
  | none => t
  | some exts =>
      { mimeTypes := Function.update t.mimeTypes type none
        fileExtensions :=
          exts.foldl (fun entries ext => entries.filter (·.1 ≠ ext)) t.fileExtensions }

def loadArgs (t : Mimetypes) (args : ConfigParam) : Mimetypes := (t.erase args.type).addArgs args

def load (t : Mimetypes) (conf : List ConfigParam) : Mimetypes := conf.foldl loadArgs t

/-- `get_file_extensions`; a type that is not there has none. -/
def listed (t : Mimetypes) (type : Bytes) : List Bytes := (t.mimeTypes type).getD []

/-- The tables have the same entries, and an extension of some type resolves to a type that
lists it. -/
structure Consistent (t : Mimetypes) : Prop where
  entries : ∀ ext type, (ext, type) ∈ t.fileExtensions ↔ ext ∈ t.listed type
  resolved : ∀ filename type, getSuffix filename ∈ t.listed type →
    ∀ entries, entries.Perm t.fileExtensions →
      ∃ type', getMimeType entries filename = some type' ∧ getSuffix filename ∈ t.listed type'

/-- Every entry of the multimap is listed, and no extension is empty. -/
structure Sound (t : Mimetypes) : Prop where
  entries : ∀ ext type, (ext, type) ∈ t.fileExtensions → ext ∈ t.listed type
  nonempty : ∀ type, [] ∉ t.listed type

/-- What a type lists is in the multimap. -/
def Complete (t : Mimetypes) (type : Bytes) : Prop :=
  ∀ ext ∈ t.listed type, (ext, type) ∈ t.fileExtensions

/-- The multimap has exactly what is listed. -/
structure Exact (t : Mimetypes) : Prop where
  sound : t.Sound
  complete : ∀ type, t.Complete type

/-- Each type that shares an extension with one whose line is loaded has a later line. -/
def SetsAgain (listed : Bytes → List Bytes) : List ConfigParam → Prop
  | [] => True
  | args :: conf =>
      (∀ type, type ≠ args.type → (∃ ext ∈ listed args.type, ext ∈ listed type) →
        type ∈ conf.map (·.type)) ∧
      SetsAgain (Function.update listed args.type args.exts) conf

private theorem listed_addExt (type : Bytes) (t : Mimetypes) (ext : Bytes) :
    (t.addExt type ext).listed = Function.update t.listed type (t.listed type ++ [ext]) := by
  funext other
  dsimp only [listed, addExt]
  rw [Function.update_apply, Function.update_apply]
  split <;> rfl

theorem listed_foldl_addExt (type : Bytes) (exts : List Bytes) (t : Mimetypes) :
    (exts.foldl (addExt type) t).listed = Function.update t.listed type (t.listed type ++ exts) := by
  induction exts generalizing t with
  | nil => rw [List.foldl_nil, List.append_nil, Function.update_eq_self]
  | cons ext exts ih =>
      rw [List.foldl_cons, ih, listed_addExt, Function.update_self, Function.update_idem,
        List.append_assoc, List.singleton_append]

theorem mem_foldl_addExt (type : Bytes) (exts : List Bytes) (t : Mimetypes) (ext other : Bytes) :
    (ext, other) ∈ (exts.foldl (addExt type) t).fileExtensions ↔
      (ext, other) ∈ t.fileExtensions ∨ other = type ∧ ext ∈ exts := by
  induction exts generalizing t with
  | nil => simp
  | cons first exts ih =>
      rw [List.foldl_cons, ih, addExt, List.mem_append, List.mem_singleton, Prod.mk.injEq,
        List.mem_cons]
      tauto

theorem listed_erase (type : Bytes) (t : Mimetypes) :
    (t.erase type).listed = Function.update t.listed type [] := by
  unfold erase
  cases h : t.mimeTypes type with
  | none =>
      have hnone : t.listed type = [] := by rw [listed, h, Option.getD_none]
      rw [← hnone, Function.update_eq_self]
  | some exts =>
      funext other
      dsimp only [listed]
      rw [Function.update_apply, Function.update_apply]
      split <;> rfl

private theorem mem_foldl_filter (exts : List Bytes) (entries : List (Bytes × Bytes))
    (x : Bytes × Bytes) :
    x ∈ exts.foldl (fun entries ext => entries.filter (·.1 ≠ ext)) entries ↔
      x ∈ entries ∧ x.1 ∉ exts := by
  induction exts generalizing entries with
  | nil => simp
  | cons ext exts ih =>
      rw [List.foldl_cons, ih, List.mem_filter, decide_eq_true_eq, List.mem_cons, not_or, and_assoc]

private theorem mem_erase (type : Bytes) (t : Mimetypes) (x : Bytes × Bytes) :
    x ∈ (t.erase type).fileExtensions ↔ x ∈ t.fileExtensions ∧ x.1 ∉ t.listed type := by
  unfold erase listed
  cases h : t.mimeTypes type with
  | none => simp
  | some exts => exact mem_foldl_filter exts t.fileExtensions x

theorem listed_loadArgs (t : Mimetypes) (args : ConfigParam) :
    (t.loadArgs args).listed = Function.update t.listed args.type args.exts := by
  rw [loadArgs, addArgs, listed_foldl_addExt, listed_erase, Function.update_self,
    Function.update_idem, List.nil_append]

theorem mem_loadArgs (t : Mimetypes) (args : ConfigParam) (ext type : Bytes) :
    (ext, type) ∈ (t.loadArgs args).fileExtensions ↔
      (ext, type) ∈ t.fileExtensions ∧ ext ∉ t.listed args.type ∨
        type = args.type ∧ ext ∈ args.exts := by
  rw [loadArgs, addArgs, mem_foldl_addExt, mem_erase]

theorem sound_loadArgs {t : Mimetypes} (h : t.Sound) (args : ConfigParam) :
    (t.loadArgs args).Sound where
  entries ext type hmem := by
    rw [listed_loadArgs]
    rcases (mem_loadArgs t args ext type).mp hmem with ⟨hold, hfree⟩ | ⟨rfl, hnew⟩
    · have hlisted := h.entries ext type hold
      have hne : type ≠ args.type := fun htype => hfree (htype ▸ hlisted)
      rwa [Function.update_of_ne hne]
    · rwa [Function.update_self]
  nonempty type := by
    rw [listed_loadArgs, Function.update_apply]
    split
    · exact args.exts_ne
    · exact h.nonempty type

theorem complete_loadArgs_self (t : Mimetypes) (args : ConfigParam) :
    (t.loadArgs args).Complete args.type := by
  intro ext hext
  rw [listed_loadArgs, Function.update_self] at hext
  exact (mem_loadArgs t args ext args.type).mpr (.inr ⟨rfl, hext⟩)

/-- The line of a type leaves another complete exactly when they share no extension. -/
theorem complete_loadArgs_iff {t : Mimetypes} {args : ConfigParam} {type : Bytes}
    (hne : type ≠ args.type) :
    (t.loadArgs args).Complete type ↔
      t.Complete type ∧ ¬∃ ext ∈ t.listed args.type, ext ∈ t.listed type := by
  have hmem : ∀ ext, (ext, type) ∈ (t.loadArgs args).fileExtensions ↔
      (ext, type) ∈ t.fileExtensions ∧ ext ∉ t.listed args.type := by
    intro ext
    rw [mem_loadArgs, or_iff_left fun hself => hne hself.1]
  simp only [Complete, listed_loadArgs, Function.update_of_ne hne, hmem]
  constructor
  · intro h
    refine ⟨fun ext hext => (h ext hext).1, ?_⟩
    rintro ⟨ext, hshared, hext⟩
    exact (h ext hext).2 hshared
  · rintro ⟨hcomplete, hfree⟩ ext hext
    exact ⟨hcomplete ext hext, fun hshared => hfree ⟨ext, hshared, hext⟩⟩

theorem sound_load {t : Mimetypes} (h : t.Sound) (conf : List ConfigParam) : (t.load conf).Sound := by
  induction conf generalizing t with
  | nil => exact h
  | cons args conf ih => exact ih (sound_loadArgs h args)

/-- Behind a load all types are complete exactly when those without a line were before, and
each that loses an entry has a line behind it. -/
theorem complete_load_iff (t : Mimetypes) (conf : List ConfigParam) :
    (∀ type, (t.load conf).Complete type) ↔
      (∀ type, type ∉ conf.map (·.type) → t.Complete type) ∧ SetsAgain t.listed conf := by
  induction conf generalizing t with
  | nil => simp [load, SetsAgain]
  | cons args conf ih =>
      have hload : t.load (args :: conf) = (t.loadArgs args).load conf := rfl
      rw [hload, ih, SetsAgain, listed_loadArgs, ← and_assoc]
      refine and_congr_left fun _ => ?_
      simp only [List.map_cons, List.mem_cons, not_or]
      constructor
      · intro h
        refine ⟨fun type hfree => ((complete_loadArgs_iff hfree.1).mp (h type hfree.2)).1, ?_⟩
        intro type hne hshares
        by_contra hlater
        exact ((complete_loadArgs_iff hne).mp (h type hlater)).2 hshares
      · rintro ⟨hcomplete, hagain⟩ type hlater
        by_cases hne : type = args.type
        · exact hne ▸ complete_loadArgs_self t args
        · exact (complete_loadArgs_iff hne).mpr
            ⟨hcomplete type ⟨hne, hlater⟩, fun hshares => hlater (hagain type hne hshares)⟩

private theorem getMimeType_of_mem {entries : List (Bytes × Bytes)} {filename type : Bytes}
    (hne : getSuffix filename ≠ []) (hmem : (getSuffix filename, type) ∈ entries) :
    ∃ type', getMimeType entries filename = some type' ∧ (getSuffix filename, type') ∈ entries := by
  have hsome : (entries.find? (·.1 = getSuffix filename)).isSome := by
    rw [List.find?_isSome]
    exact ⟨_, hmem, decide_eq_true rfl⟩
  obtain ⟨⟨ext, type'⟩, hfind⟩ := Option.isSome_iff_exists.mp hsome
  have hext : ext = getSuffix filename := by simpa using List.find?_some hfind
  refine ⟨type', ?_, hext ▸ List.mem_of_find?_eq_some hfind⟩
  unfold getMimeType
  rw [if_neg hne, hfind, Option.map_some]

theorem consistent_iff {t : Mimetypes} (h : t.Sound) : t.Consistent ↔ ∀ type, t.Complete type := by
  constructor
  · intro hconsistent type ext hext
    exact (hconsistent.entries ext type).mpr hext
  · intro hcomplete
    refine ⟨fun ext type => ⟨h.entries ext type, hcomplete type ext⟩, ?_⟩
    intro filename type hlisted entries hperm
    have hne : getSuffix filename ≠ [] := fun hnil => h.nonempty type (hnil ▸ hlisted)
    have hmem := hperm.mem_iff.mpr (hcomplete type _ hlisted)
    obtain ⟨type', hget, hmem'⟩ := getMimeType_of_mem hne hmem
    exact ⟨type', hget, h.entries _ _ (hperm.mem_iff.mp hmem')⟩

private theorem sound_addArgs {t : Mimetypes} (h : t.Sound) (args : ConfigParam) :
    (t.addArgs args).Sound where
  entries ext type hmem := by
    rw [addArgs, listed_foldl_addExt]
    rcases (mem_foldl_addExt args.type args.exts t ext type).mp hmem with hold | ⟨rfl, hnew⟩
    · have hlisted := h.entries ext type hold
      by_cases hne : type = args.type
      · rw [hne, Function.update_self]
        exact List.mem_append_left _ (hne ▸ hlisted)
      · rwa [Function.update_of_ne hne]
    · rw [Function.update_self]
      exact List.mem_append_right _ hnew
  nonempty type := by
    rw [addArgs, listed_foldl_addExt, Function.update_apply]
    split
    · exact fun hmem => (List.mem_append.mp hmem).elim (h.nonempty _) args.exts_ne
    · exact h.nonempty type

private theorem complete_addArgs {t : Mimetypes} (h : ∀ type, t.Complete type) (args : ConfigParam)
    (type : Bytes) : (t.addArgs args).Complete type := by
  intro ext hext
  refine (mem_foldl_addExt args.type args.exts t ext type).mpr ?_
  rw [addArgs, listed_foldl_addExt] at hext
  by_cases hne : type = args.type
  · subst hne
    rw [Function.update_self] at hext
    rcases List.mem_append.mp hext with hold | hnew
    · exact .inl (h _ ext hold)
    · exact .inr ⟨rfl, hnew⟩
  · rw [Function.update_of_ne hne] at hext
    exact .inl (h type ext hext)

theorem construct_exact (conf : List ConfigParam) : (construct conf).Exact := by
  have hstep : ∀ (t : Mimetypes) (args : ConfigParam), t.Exact → True → (t.addArgs args).Exact :=
    fun t args h _ => ⟨sound_addArgs h.sound args, complete_addArgs h.complete args⟩
  have hempty : empty.Exact := ⟨⟨nofun, fun _ => nofun⟩, fun _ => nofun⟩
  exact run_invariant hstep hempty (admissible_true addArgs empty conf)

private theorem consistent_load_iff {t : Mimetypes} (h : t.Exact) (conf : List ConfigParam) :
    (t.load conf).Consistent ↔ SetsAgain t.listed conf := by
  rw [consistent_iff (sound_load h.sound conf), complete_load_iff,
    and_iff_right fun type _ => h.complete type]

private theorem exact_load {t : Mimetypes} (h : t.Exact) {conf : List ConfigParam}
    (hagain : SetsAgain t.listed conf) : (t.load conf).Exact where
  sound := sound_load h.sound conf
  complete := (complete_load_iff t conf).mpr ⟨fun type _ => h.complete type, hagain⟩

/-- The tables are consistent at first, and behind every load exactly when its lines set each
type again that shares an extension with a type that they overwrite. -/
theorem tables_consistent_iff (conf : List ConfigParam) (loads : List (List ConfigParam)) :
    (construct conf).Consistent ∧
      (Admissible load (fun t conf => (t.load conf).Consistent) (construct conf) loads ↔
        Admissible load (fun t conf => SetsAgain t.listed conf) (construct conf) loads) := by
  have hconstruct := construct_exact conf
  refine ⟨(consistent_iff hconstruct.sound).mpr hconstruct.complete, ?_⟩
  refine admissible_congr (fun t conf (h : t.Exact) _ => consistent_load_iff h conf) ?_ hconstruct
    (admissible_true load (construct conf) loads)
  intro t conf h _ hagain
  exact exact_load h hagain

/-- Two types have the extension `x`; one of them is loaded with `y`, and `x` is lost. -/
theorem tables_consistent_fails :
    ¬∀ (conf : List ConfigParam) (loads : List (List ConfigParam)),
      Admissible load (fun t conf => (t.load conf).Consistent) (construct conf) loads := by
  intro h
  have hload := (h [⟨ascii "t/a", [ascii "x"], by decide⟩, ⟨ascii "t/b", [ascii "x"], by decide⟩]
    [[⟨ascii "t/a", [ascii "y"], by decide⟩]]).1
  have hlost := (hload.entries (ascii "x") (ascii "t/b")).mpr (by decide)
  exact absurd hlost (by decide)

end Mimetypes

end Angel.Mime
