import Angel.Util.Conf
import Angel.Util.Split

/-!
`parse_resolv_conf`: the address of the name server that the resolver sends its
queries to. The second word of a line is read without a look at their number.
-/

namespace Angel.Dns

open Util

def NAMESERVER : Bytes := ascii "nameserver"

/-- The loop over the lines; without a result where it reads behind the words of
a line. The empty string says that there is no server. -/
def pickServer : List (List Bytes) → Option Bytes
  | [] => some []
  | [] :: _ => none
  | (key :: args) :: res =>
      if key = NAMESERVER then
        match args with
        | [] => none
        | addr :: _ => if checkIp addr then some addr else pickServer res
      else pickServer res

/-- `parse_resolv_conf` of a file with this content. -/
def parseResolvConf (text : Bytes) : Option Bytes := (parseConf text).bind pickServer

/-- The server that a line names. -/
def served : List Bytes → Option Bytes
  | key :: addr :: _ => if key = NAMESERVER ∧ checkIp addr = true then some addr else none
  | _ => none

/-- A line whose second word the loop would read, and has none. -/
def bare (arg : List Bytes) : Bool := arg = [] || arg = [NAMESERVER]

/-- A line at which the loop ends. -/
def decides (arg : List Bytes) : Bool := bare arg || (served arg).isSome

theorem served_checkIp {arg : List Bytes} {addr : Bytes} (h : served arg = some addr) :
    checkIp addr = true := by
  unfold served at h
  split at h
  · split at h
    · next hline =>
      cases h
      exact hline.2
    · cases h
  · cases h

theorem pickServer_cons (arg : List Bytes) (res : List (List Bytes)) :
    pickServer (arg :: res) = if decides arg then served arg else pickServer res := by
  cases arg with
  | nil => rfl
  | cons key args =>
      by_cases hkey : key = NAMESERVER
      · subst hkey
        cases args with
        | nil => rfl
        | cons addr more =>
            have hbare : bare (NAMESERVER :: addr :: more) = false := rfl
            by_cases haddr : checkIp addr = true <;>
              simp [pickServer, decides, hbare, served, haddr]
      · have hbare : bare (key :: args) = false := by simp [bare, hkey]
        have hserved : served (key :: args) = none := by
          cases args <;> simp [served, hkey]
        simp [pickServer, decides, hkey, hbare, hserved]

/-- The words of a line that the loop passes over. -/
def Passed (arg : List Bytes) : Prop := arg ≠ [NAMESERVER] ∧ served arg = none

private theorem decides_iff {arg : List Bytes} (hne : arg ≠ []) :
    decides arg = true ↔ ¬ Passed arg := by
  simp only [decides, bare, hne, Passed, Bool.or_eq_true, decide_eq_true_eq, false_or, not_and_or,
    not_not, ← ne_eq, Option.isSome_iff_ne_none]

private theorem pickServer_eq_iff {res : List (List Bytes)} (hne : ∀ arg ∈ res, arg ≠ [])
    (result : Option Bytes) :
    pickServer res = result ↔
      ((∀ arg ∈ res, Passed arg) ∧ result = some []) ∨
        ∃ front arg back, res = front ++ arg :: back ∧ (∀ line ∈ front, Passed line) ∧
          ¬ Passed arg ∧ result = served arg := by
  induction res with
  | nil => simp [pickServer, eq_comm]
  | cons arg res ih =>
      obtain ⟨harg, hres⟩ := List.forall_mem_cons.mp hne
      rw [pickServer_cons]
      by_cases hpassed : Passed arg
      · rw [if_neg (fun h => (decides_iff harg).mp h hpassed), ih hres, List.forall_mem_cons,
          and_iff_right hpassed]
        refine or_congr_right ⟨?_, ?_⟩
        · rintro ⟨front, line, back, rfl, hfront, h⟩
          exact ⟨arg :: front, line, back, rfl, List.forall_mem_cons.mpr ⟨hpassed, hfront⟩, h⟩
        · rintro ⟨front, line, back, heq, hfront, h⟩
          cases front with
          | nil =>
              cases heq
              exact absurd hpassed h.1
          | cons _ front =>
              cases heq
              exact ⟨front, line, back, rfl, (List.forall_mem_cons.mp hfront).2, h⟩
      · rw [if_pos ((decides_iff harg).mpr hpassed)]
        constructor
        · rintro rfl
          exact .inr ⟨[], arg, res, rfl, nofun, hpassed, rfl⟩
        · rintro (⟨hall, _⟩ | ⟨front, line, back, heq, hfront, _, rfl⟩)
          · exact absurd (hall arg List.mem_cons_self) hpassed
          · cases front with
            | nil =>
                cases heq
                rfl
            | cons _ front =>
                cases heq
                exact absurd (hfront arg List.mem_cons_self) hpassed

/-- A resolver starts with the address of the first line that serves one, unless a line of the
bare word `nameserver` is in front of it: there the loop reads behind the words. -/
theorem parseResolvConf_exact {text : Bytes} {params : List (List Bytes)}
    (hparse : parseConf text = some params) :
    (parseResolvConf text = none ↔ ∃ front back, params = front ++ [NAMESERVER] :: back ∧
      ∀ arg ∈ front, Passed arg) ∧
    (∀ addr, addr ≠ [] → (parseResolvConf text = some addr ↔ ∃ front arg back,
      params = front ++ arg :: back ∧ (∀ line ∈ front, Passed line) ∧ served arg = some addr)) ∧
    (parseResolvConf text = some [] ↔ ∀ arg ∈ params, Passed arg) := by
  have hne : ∀ arg ∈ params, arg ≠ [] := fun arg harg => (parseConf_params hparse arg harg).1
  rw [parseResolvConf, hparse, Option.bind_some]
  refine ⟨?_, fun addr haddr => ?_, ?_⟩
  · rw [pickServer_eq_iff hne]
    constructor
    · rintro (⟨_, h⟩ | ⟨front, arg, back, rfl, hfront, hpassed, hserved⟩)
      · cases h
      · have harg : arg = [NAMESERVER] := by
          by_contra hother
          exact hpassed ⟨hother, hserved.symm⟩
        exact ⟨front, back, harg ▸ rfl, hfront⟩
    · rintro ⟨front, back, rfl, hfront⟩
      exact .inr ⟨front, [NAMESERVER], back, rfl, hfront, fun h => h.1 rfl, rfl⟩
  · rw [pickServer_eq_iff hne]
    constructor
    · rintro (⟨_, h⟩ | ⟨front, arg, back, rfl, hfront, _, hserved⟩)
      · exact absurd (Option.some.inj h) haddr
      · exact ⟨front, arg, back, rfl, hfront, hserved.symm⟩
    · rintro ⟨front, arg, back, rfl, hfront, hserved⟩
      refine .inr ⟨front, arg, back, rfl, hfront, fun h => ?_, hserved.symm⟩
      rw [h.2] at hserved
      cases hserved
  · rw [pickServer_eq_iff hne]
    constructor
    · rintro (⟨hall, _⟩ | ⟨front, arg, back, rfl, _, _, hserved⟩)
      · exact hall
      · have hempty := served_checkIp hserved.symm
        exact absurd hempty (by decide)
    · exact fun hall => .inl ⟨hall, rfl⟩

/-- The first address is no address, the second line names the server. -/
theorem parseResolvConf_second :
    parseResolvConf (ascii "search lan\nnameserver none\nnameserver 10.0.0.1\n") =
      some (ascii "10.0.0.1") ∧
    parseResolvConf (ascii "nameserver\n") = none := by
  have hlong : parseConf (ascii "search lan\nnameserver none\nnameserver 10.0.0.1\n") =
      some [[ascii "search", ascii "lan"], [NAMESERVER, ascii "none"],
        [NAMESERVER, ascii "10.0.0.1"]] := by decide
  have hbare : parseConf (ascii "nameserver\n") = some [[NAMESERVER]] := by decide
  constructor
  · refine ((parseResolvConf_exact hlong).2.1 _ (by decide)).mpr ⟨[[ascii "search", ascii "lan"],
      [NAMESERVER, ascii "none"]], [NAMESERVER, ascii "10.0.0.1"], [], rfl, ?_, by decide⟩
    unfold Passed
    decide
  · exact (parseResolvConf_exact hbare).1.mpr ⟨[], [], rfl, nofun⟩

end Angel.Dns
