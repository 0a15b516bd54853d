import Mathlib.Data.List.Basic
import Mathlib.Data.List.Infix
import Mathlib.Tactic.Common

/-!
File paths as strings over any alphabet with a separator and a dot. A path is
normalised lexically: empty components and `.` are skipped, `..` takes back the
component in front of it, and what it cannot take back it climbs, except above the
root.
-/

namespace Angel.Lib.Path

variable {α : Type*} [DecidableEq α] (slash dot : α)

/-- The components between the separators. -/
def components : List α → List (List α)
  | [] => [[]]
  | c :: rest =>
      if c = slash then [] :: components rest
      else
        match components rest with
        | [] => [[c]]
        | part :: parts => (c :: part) :: parts

/-- A place as far as the text of a path tells: how far up from the start, and the
names down from there. -/
abbrev Place (α : Type*) := Nat × List (List α)

def walk (absolute : Bool) (place : Place α) (part : List α) : Place α :=
  if part = [] ∨ part = [dot] then place
  else if part = [dot, dot] then
    match place.2 with
    | [] => (if absolute then place.1 else place.1 + 1, [])
    | _ :: _ => (place.1, place.2.dropLast)
  else (place.1, place.2 ++ [part])

def isAbsolute (path : List α) : Bool := path.head? = some slash

/-- The place of a path. -/
def normalise (path : List α) : Place α :=
  (components slash path).foldl (walk dot (isAbsolute slash path)) (0, [])

/-- The second path lies in the directory that the first one names. -/
def Inside (dir file : List α) : Prop :=
  isAbsolute slash file = isAbsolute slash dir ∧
  (normalise slash dot file).1 = (normalise slash dot dir).1 ∧
  (normalise slash dot dir).2 <+: (normalise slash dot file).2

instance (dir file : List α) : Decidable (Inside slash dot dir file) :=
  inferInstanceAs (Decidable (_ ∧ _ ∧ _))

/-- The components, taken from `depth` names below some directory, never lead above
it. -/
def stays : Nat → List (List α) → Bool
  | _, [] => true
  | depth, part :: parts =>
      if part = [] ∨ part = [dot] then stays depth parts
      else if part = [dot, dot] then
        match depth with
        | 0 => false
        | depth + 1 => stays depth parts
      else stays (depth + 1) parts

section Components

theorem components_ne_nil (path : List α) : components slash path ≠ [] := by
  fun_cases components slash path <;> simp

theorem components_slash (rest : List α) :
    components slash (slash :: rest) = [] :: components slash rest := if_pos rfl

/-- A symbol that is no separator joins the first component of what follows. -/
theorem components_symbol {c : α} {rest part : List α} {parts : List (List α)} (hc : c ≠ slash)
    (h : components slash rest = part :: parts) :
    components slash (c :: rest) = (c :: part) :: parts := by
  rw [components, if_neg hc, h]

theorem components_append (front rest : List α) :
    components slash (front ++ slash :: rest) = components slash front ++ components slash rest := by
  induction front with
  | nil => exact components_slash slash rest
  | cons c front ih =>
      by_cases hc : c = slash
      · subst hc
        rw [List.cons_append, components_slash, components_slash, ih, List.cons_append]
      · obtain ⟨part, parts, hfront⟩ :=
          List.exists_cons_of_ne_nil (components_ne_nil slash front)
        rw [hfront, List.cons_append] at ih
        rw [components_symbol slash hc hfront, List.cons_append, components_symbol slash hc ih,
          List.cons_append]

theorem components_join {front : List α} (hfront : slash ∉ front) (rest : List α) :
    ∃ part parts, components slash rest = part :: parts ∧
      components slash (front ++ rest) = (front ++ part) :: parts := by
  obtain ⟨part, parts, hrest⟩ := List.exists_cons_of_ne_nil (components_ne_nil slash rest)
  refine ⟨part, parts, hrest, ?_⟩
  induction front with
  | nil => exact hrest
  | cons c front ih =>
      simp only [List.mem_cons, not_or] at hfront
      exact components_symbol slash (Ne.symm hfront.1) (ih hfront.2)

theorem components_length {path part : List α} (h : part ∈ components slash path) :
    part.length ≤ path.length := by
  induction path generalizing part with
  | nil =>
      rw [List.mem_singleton.mp h]
  | cons c rest ih =>
      by_cases hc : c = slash
      · rw [hc, components_slash] at h
        rcases List.mem_cons.mp h with rfl | hin
        · simp
        · exact Nat.le_succ_of_le (ih hin)
      · obtain ⟨first, parts, hrest⟩ := List.exists_cons_of_ne_nil (components_ne_nil slash rest)
        rw [components_symbol slash hc hrest] at h
        rcases List.mem_cons.mp h with rfl | hin
        · have hfirst : first.length ≤ rest.length := ih (by simp [hrest])
          simpa using hfirst
        · exact Nat.le_succ_of_le (ih (by simp [hrest, hin]))

end Components

section Walk

variable {slash dot} {absolute : Bool} {up : Nat} {extra : List (List α)} {b : List α}

theorem walk_skip {place : Place α} {part : List α} (hskip : part = [] ∨ part = [dot]) :
    walk dot absolute place part = place := if_pos hskip

theorem walk_name {place : Place α} {part : List α} (hskip : ¬ (part = [] ∨ part = [dot]))
    (hname : part ≠ [dot, dot]) :
    walk dot absolute place part = (place.1, place.2 ++ [part]) :=
  (if_neg hskip).trans (if_neg hname)

theorem walk_up {place : Place α} (hplace : place.2 ≠ []) :
    walk dot absolute place [dot, dot] = (place.1, place.2.dropLast) := by
  obtain ⟨first, names, hnames⟩ := List.exists_cons_of_ne_nil hplace
  rw [walk, if_neg (by simp), if_pos rfl, hnames]

theorem stays_skip {depth : Nat} {part : List α} {parts : List (List α)}
    (hskip : part = [] ∨ part = [dot]) : stays dot depth (part :: parts) = stays dot depth parts :=
  if_pos hskip

theorem stays_name {depth : Nat} {part : List α} {parts : List (List α)}
    (hskip : ¬ (part = [] ∨ part = [dot])) (hname : part ≠ [dot, dot]) :
    stays dot depth (part :: parts) = stays dot (depth + 1) parts :=
  (if_neg hskip).trans (if_neg hname)

theorem stays_up (depth : Nat) (parts : List (List α)) :
    stays dot depth ([dot, dot] :: parts) = (decide (0 < depth) && stays dot (depth - 1) parts) := by
  have hskip : ¬ ([dot, dot] = [] ∨ [dot, dot] = [dot]) := by simp
  cases depth with
  | zero => exact (if_neg hskip).trans (if_pos rfl)
  | succ depth =>
      rw [Nat.add_sub_cancel, decide_eq_true (Nat.succ_pos depth), Bool.true_and]
      exact (if_neg hskip).trans (if_pos rfl)

theorem walk_stays (absolute : Bool) (up : Nat) (names extra parts : List (List α))
    (h : stays dot extra.length parts = true) :
    ∃ more, parts.foldl (walk dot absolute) (up, names ++ extra) = (up, names ++ more) := by
  induction parts generalizing extra with
  | nil => exact ⟨extra, rfl⟩
  | cons part parts ih =>
      rw [List.foldl_cons]
      by_cases hskip : part = [] ∨ part = [dot]
      · rw [stays_skip hskip] at h
        rw [walk_skip hskip]
        exact ih extra h
      by_cases hup : part = [dot, dot]
      · -- the name that is taken back is one below the directory
        subst hup
        rw [stays_up, Bool.and_eq_true, decide_eq_true_eq] at h
        have hextra : extra ≠ [] := List.ne_nil_of_length_pos h.1
        have hnames : names ++ extra ≠ [] := by simp [hextra]
        rw [walk_up hnames, List.dropLast_append_of_ne_nil hextra]
        apply ih
        rw [List.length_dropLast]
        exact h.2
      · rw [stays_name hskip hup] at h
        rw [walk_name hskip hup, List.append_assoc]
        apply ih
        rw [List.length_append, List.length_singleton]
        exact h

theorem walk_avoids {place : Place α} (parts : List (List α)) (hplace : b ∉ place.2)
    (hparts : b ∉ parts) : b ∉ (parts.foldl (walk dot absolute) place).2 := by
  induction parts generalizing place with
  | nil => exact hplace
  | cons part parts ih =>
      simp only [List.mem_cons, not_or] at hparts
      rw [List.foldl_cons]
      refine ih ?_ hparts.2
      by_cases hskip : part = [] ∨ part = [dot]
      · rw [walk_skip hskip]
        exact hplace
      by_cases hup : part = [dot, dot]
      · subst hup
        by_cases hnil : place.2 = []
        · rw [walk, if_neg hskip, if_pos rfl, hnil]
          simp
        · rw [walk_up hnil]
          exact fun hin => hplace (List.dropLast_subset _ hin)
      · rw [walk_name hskip hup]
        simp only [List.mem_append, List.mem_singleton, not_or]
        exact ⟨hplace, hparts.1⟩

/-- Components that do not stay take the name of the directory back, and it does
not come up again when none of them spells it. -/
theorem walk_leaves (parts : List (List α)) (h : stays dot extra.length parts = false)
    (hextra : b ∉ extra) (hparts : b ∉ parts) :
    b ∉ (parts.foldl (walk dot absolute) (up, b :: extra)).2 := by
  induction parts generalizing extra with
  | nil => cases h
  | cons part parts ih =>
      simp only [List.mem_cons, not_or] at hparts
      rw [List.foldl_cons]
      by_cases hskip : part = [] ∨ part = [dot]
      · rw [stays_skip hskip] at h
        rw [walk_skip hskip]
        exact ih h hextra hparts.2
      by_cases hup : part = [dot, dot]
      · subst hup
        rw [stays_up] at h
        rw [walk_up (List.cons_ne_nil b extra)]
        cases extra with
        | nil => exact walk_avoids parts (by simp) hparts.2
        | cons name extra =>
            have hless : b ∉ (name :: extra).dropLast :=
              fun hin => hextra (List.dropLast_subset _ hin)
            show b ∉ (parts.foldl (walk dot absolute) (up, b :: (name :: extra).dropLast)).2
            refine ih ?_ hless hparts.2
            simpa using h
      · rw [stays_name hskip hup] at h
        rw [walk_name hskip hup, List.cons_append]
        refine ih ?_ ?_ hparts.2
        · simpa using h
        · simp only [List.mem_append, List.mem_singleton, not_or]
          exact ⟨hextra, hparts.1⟩

end Walk

section Inside

variable {slash dot} {dir base rest b : List α} {c : α}

theorem isAbsolute_append (slash : α) (hbase : base ≠ []) (rest : List α) :
    isAbsolute slash (base ++ rest) = isAbsolute slash base := by
  obtain ⟨c, base, rfl⟩ := List.exists_cons_of_ne_nil hbase
  rfl

theorem inside_refl (dir : List α) : Inside slash dot dir dir :=
  ⟨rfl, rfl, List.prefix_rfl⟩

theorem walk_trailing (absolute : Bool) (base : List α) :
    (components slash (base ++ [slash])).foldl (walk dot absolute) (0, []) =
      (components slash base).foldl (walk dot absolute) (0, []) := by
  rw [components_append, List.foldl_append]
  exact (walk_skip (Or.inl rfl) : walk dot absolute _ [] = _)

theorem inside_trailing (hbase : base ≠ []) : Inside slash dot (base ++ [slash]) base := by
  have habs := isAbsolute_append slash hbase [slash]
  refine ⟨habs.symm, ?_, ?_⟩
  · simp only [normalise, habs, walk_trailing]
  · simp only [normalise, habs, walk_trailing]
    exact List.prefix_rfl

/-- A path that stays below the directory it is appended to, written with or without
a separator at its end. -/
theorem inside_append (base : List α) (h : stays dot 0 (components slash rest) = true) :
    (base ≠ [] → Inside slash dot base (base ++ slash :: rest)) ∧
    Inside slash dot (base ++ [slash]) (base ++ slash :: rest) := by
  have hplace : ∀ absolute, ∃ more,
      (components slash (base ++ slash :: rest)).foldl (walk dot absolute) (0, []) =
        (((components slash base).foldl (walk dot absolute) (0, [])).1,
          ((components slash base).foldl (walk dot absolute) (0, [])).2 ++ more) := by
    intro absolute
    rw [components_append, List.foldl_append]
    set place := (components slash base).foldl (walk dot absolute) (0, [])
    obtain ⟨more, hmore⟩ := walk_stays absolute place.1 place.2 [] (components slash rest) h
    rw [List.append_nil] at hmore
    exact ⟨more, hmore⟩
  constructor
  · intro hbase
    have habs := isAbsolute_append slash hbase (slash :: rest)
    obtain ⟨more, hmore⟩ := hplace (isAbsolute slash base)
    refine ⟨habs, ?_, ?_⟩
    · simp only [normalise, habs, hmore]
    · simp only [normalise, habs, hmore]
      exact List.prefix_append _ _
  · have habs : isAbsolute slash (base ++ slash :: rest) = isAbsolute slash (base ++ [slash]) := by
      cases base <;> rfl
    obtain ⟨more, hmore⟩ := hplace (isAbsolute slash (base ++ [slash]))
    refine ⟨habs, ?_, ?_⟩
    · simp only [normalise, habs, hmore, walk_trailing]
    · simp only [normalise, habs, hmore, walk_trailing]
      exact List.prefix_append _ _

theorem normalise_root (dot : α) (hslash : slash ∉ b) (hb : 2 < b.length) :
    (normalise slash dot (slash :: b)).2 = [b] := by
  have hone : components slash b = [b] := by
    obtain ⟨part, parts, hnil, hjoin⟩ := components_join slash hslash []
    obtain ⟨rfl, rfl⟩ := List.cons.inj hnil
    simpa using hjoin
  have hskip : ¬ (b = [] ∨ b = [dot]) := by
    rintro (rfl | rfl) <;> simp at hb
  have hname : b ≠ [dot, dot] := by
    rintro rfl
    simp at hb
  rw [normalise, components_slash, hone, List.foldl_cons, List.foldl_cons, List.foldl_nil,
    walk_skip (Or.inl rfl), walk_name hskip hname]
  rfl

theorem not_inside_of_not_mem (hslash : slash ∉ b) (hb : 2 < b.length)
    (h : b ∉ (normalise slash dot rest).2) : ¬ Inside slash dot (slash :: b) rest := by
  rintro ⟨-, -, hinside⟩
  rw [normalise_root dot hslash hb] at hinside
  exact h (hinside.subset List.mem_cons_self)

/-- A path that climbs out of a directory does not find back when it is too short
to spell the directory's name. -/
theorem not_inside_climb (hslash : slash ∉ b) (hb : 2 < b.length) (hlen : rest.length < b.length)
    (h : stays dot 0 (components slash rest) = false) :
    ¬ Inside slash dot (slash :: b) (slash :: b ++ slash :: rest) := by
  apply not_inside_of_not_mem hslash hb
  have hroot := normalise_root dot hslash hb
  have hnot : b ∉ components slash rest := by
    intro hin
    exact absurd (components_length slash hin) (Nat.not_le_of_lt hlen)
  simp only [normalise, components_append, List.foldl_append] at hroot ⊢
  set place := (components slash (slash :: b)).foldl (walk dot (isAbsolute slash (slash :: b))) (0, [])
    with hplace
  have habs : isAbsolute slash (slash :: b ++ slash :: rest) = isAbsolute slash (slash :: b) := rfl
  rw [habs, ← hplace, show place = (place.1, [b]) from Prod.ext rfl hroot]
  exact walk_leaves (components slash rest) h (by simp) hnot

/-- Without a separator the path goes on with the directory's name, and names
another one. -/
theorem not_inside_glued (hslash : slash ∉ b) (hb : 2 < b.length) (hc : c ≠ slash)
    (hlen : (c :: rest).length < b.length) :
    ¬ Inside slash dot (slash :: b) (slash :: b ++ c :: rest) := by
  apply not_inside_of_not_mem hslash hb
  apply walk_avoids _ (by simp)
  obtain ⟨part, parts, hrest, hjoin⟩ := components_join slash hslash (c :: rest)
  have hpart : part ≠ [] := by
    obtain ⟨first, others, hfirst⟩ := List.exists_cons_of_ne_nil (components_ne_nil slash rest)
    rw [components_symbol slash hc hfirst] at hrest
    obtain ⟨rfl, rfl⟩ := List.cons.inj hrest
    exact List.cons_ne_nil c first
  have hparts : b ∉ parts := by
    intro hin
    have hmem : b ∈ components slash (c :: rest) := by simp [hrest, hin]
    exact absurd (components_length slash hmem) (Nat.not_le_of_lt hlen)
  rw [List.cons_append, components_slash, hjoin]
  simp only [List.mem_cons, not_or]
  refine ⟨?_, ?_, hparts⟩
  · rintro rfl
    simp at hb
  · simpa using hpart

end Inside

end Angel.Lib.Path
