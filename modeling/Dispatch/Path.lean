/-
File paths as text. Cleaning is lexical: empty and `.` components go, and a `..` takes the component
before it away, or goes itself at the root. Nothing here looks at files.

A `Location` is an absolute place, by its components from the root on. `locate` walks a path from a
location. A `Rooted` path is the text of an absolute path; its `parent` is shorter than the path, unless
there is no way up any more, so going up comes to an end.
-/
import Dispatch.Bytes

namespace Dispatch.Path

/-- The byte between components. -/
def slash : UInt8 := 0x2f

/-- The component that stays where it is. -/
def dot : Name := Bytes.ofString "."

/-- The component that goes up. -/
def dotDot : Name := Bytes.ofString ".."

def isAbsolute (p : Bytes) : Bool := p.head? == some slash

/-- The components of a path that lead anywhere. -/
def components (p : Bytes) : List Name := (Bytes.splitOn slash p).filter fun c => c != [] && c != dot

/-- Go one component on from the components passed so far, the last one first. Above the root of an
absolute path there is only the root; a relative path keeps the ways up that it starts with. -/
def step (absolute : Bool) (passed : List Name) (c : Name) : List Name :=
  if c = dotDot then
    match passed with
    | [] => if absolute then [] else [dotDot]
    | last :: before => if last = dotDot then dotDot :: passed else before
  else c :: passed

/-- The components with slashes between them. -/
def joined (cs : List Name) : Bytes := Bytes.joinWith [slash] cs

/-- The shortest path that leads to the same place. -/
def clean (p : Bytes) : Bytes :=
  let passed := (components p).foldl (step (isAbsolute p)) []
  if isAbsolute p then slash :: joined passed.reverse
  else if passed.isEmpty then dot
  else joined passed.reverse

/-- The clean path that goes on with `b` where `a` ends. An empty part is no part. -/
def join (a b : Bytes) : Bytes :=
  if a.isEmpty then (if b.isEmpty then [] else clean b) else clean (a ++ slash :: b)

/-- The text of a path up to its last slash. -/
def upToSlash (p : Bytes) : Bytes := (p.reverse.dropWhile (· != slash)).reverse

/-- The clean path to the directory that the end of a path lies in. -/
def parent (p : Bytes) : Bytes := clean (upToSlash p)

/-! ## Locations -/

/-- An absolute place, by its components from the root on. -/
abbrev Location := List Name

/-- The path of a location. -/
def Location.path (l : Location) : Bytes := slash :: joined l

/-- The place one component on. -/
def Location.enter (l : Location) (c : Name) : Location :=
  if c = [] ∨ c = dot then l
  else if c = dotDot then l.dropLast
  else l ++ [c]

/-- The place that a path leads to from a location. -/
def locate (current : Location) (p : Bytes) : Location :=
  (Bytes.splitOn slash p).foldl Location.enter (if isAbsolute p then [] else current)

/-! ## Rooted paths -/

theorem isAbsolute_cons (b : UInt8) (p : Bytes) : isAbsolute (b :: p) = (b == slash) := rfl

theorem isAbsolute_iff {p : Bytes} : isAbsolute p = true ↔ ∃ q, p = slash :: q := by
  cases p with
  | nil => simp [isAbsolute]
  | cons b q => simp [isAbsolute_cons]

theorem isAbsolute_clean {p : Bytes} (h : isAbsolute p = true) : isAbsolute (clean p) = true := by
  simp [clean, h, isAbsolute_cons]

theorem upToSlash_append {front last : Bytes} (h : slash ∉ last) :
    upToSlash (front ++ slash :: last) = front ++ [slash] := by
  have hlast : ∀ b ∈ last.reverse, (b != slash) = true := by
    intro b hb
    simp only [List.mem_reverse] at hb
    exact bne_iff_ne.mpr fun heq => h (heq ▸ hb)
  simp [upToSlash, List.dropWhile_append_of_pos hlast]

/-- A path with a slash is cut at its last one. -/
theorem exists_last_slash {p : Bytes} (h : slash ∈ p) : ∃ front last, p = front ++ slash :: last ∧ slash ∉ last := by
  obtain ⟨last, front, hp, hlast⟩ := List.eq_append_cons_of_mem (List.mem_reverse.mpr h)
  refine ⟨front.reverse, last.reverse, ?_, by simpa using hlast⟩
  simpa using congrArg List.reverse hp

theorem isAbsolute_upToSlash {p : Bytes} (h : isAbsolute p = true) : isAbsolute (upToSlash p) = true := by
  obtain ⟨q, rfl⟩ := isAbsolute_iff.mp h
  obtain ⟨front, last, hp, hlast⟩ := exists_last_slash (List.mem_cons_self (a := slash) (l := q))
  rw [hp, upToSlash_append hlast]
  cases front with
  | nil => rfl
  | cons b front =>
    obtain ⟨rfl, -⟩ := List.cons.inj hp
    rfl

/-- The text of a path from the root on. -/
@[ext]
structure Rooted where
  text : Bytes
  rooted : isAbsolute text = true
  deriving DecidableEq, Repr

/-- The clean path from the root on to where a path leads from a location. -/
def absolute (current : Location) (p : Bytes) : Rooted :=
  if h : isAbsolute p = true then ⟨clean p, isAbsolute_clean h⟩
  else ⟨clean (current.path ++ slash :: p), isAbsolute_clean rfl⟩

theorem isAbsolute_parent {p : Bytes} (h : isAbsolute p = true) : isAbsolute (parent p) = true :=
  isAbsolute_clean (isAbsolute_upToSlash h)

/-- The path to the directory above, or the path itself at the root. -/
def Rooted.parent (p : Rooted) : Rooted := ⟨Path.parent p.text, isAbsolute_parent p.rooted⟩

/-! ### The way up is finite -/

/-- The components with a slash before each. -/
def trail (cs : List Name) : Bytes := cs.flatMap (slash :: ·)

@[simp] theorem trail_nil : trail [] = [] := rfl

@[simp] theorem trail_cons (c : Name) (cs : List Name) : trail (c :: cs) = slash :: (c ++ trail cs) := rfl

theorem trail_splitOn (p : Bytes) : trail (Bytes.splitOn slash p) = slash :: p := by
  induction p with
  | nil => rfl
  | cons b p ih =>
    by_cases hb : b = slash
    · rw [hb, Bytes.splitOn_sep, ← ih]
      rfl
    · obtain ⟨piece, pieces, hp, hbp⟩ := Bytes.splitOn_other hb p
      rw [hp] at ih
      have hrest : piece ++ trail pieces = p := (List.cons.inj ih).2
      rw [hbp, ← hrest]
      rfl

theorem slash_joined (c : Name) (cs : List Name) : slash :: joined (c :: cs) = trail (c :: cs) := by
  induction cs generalizing c with
  | nil => simp [joined, Bytes.joinWith]
  | cons d ds ih =>
    rw [trail_cons, ← ih d]
    simp [joined, Bytes.joinWith]

theorem length_trail_filter_le (keep : Name → Bool) (cs : List Name) :
    (trail (cs.filter keep)).length ≤ (trail cs).length := by
  induction cs with
  | nil => simp
  | cons c cs ih =>
    rw [List.filter_cons]
    split
    · simpa using ih
    · simp only [trail_cons, List.length_cons, List.length_append]
      omega

theorem length_trail_step_le (passed : List Name) (c : Name) :
    (trail (step true passed c)).length ≤ (trail (c :: passed)).length := by
  unfold step
  split
  · next hc =>
    cases passed with
    | nil => simp
    | cons last before =>
      simp only
      split
      · simp only [hc, Nat.le_refl]
      · simp only [trail_cons, List.length_cons, List.length_append]
        omega
  · exact Nat.le_refl _

theorem length_trail_foldl_le (cs : List Name) :
    ∀ passed, (trail (cs.foldl (step true) passed)).length ≤ (trail passed).length + (trail cs).length := by
  induction cs with
  | nil => exact fun _ => Nat.le_refl _
  | cons c cs ih =>
    intro passed
    have hstep := length_trail_step_le passed c
    have hrest := ih (step true passed c)
    simp only [List.foldl_cons, trail_cons, List.length_cons, List.length_append] at *
    omega

/-- A clean path is no longer than what the components of the path take. -/
theorem length_clean_le {p : Bytes} (h : isAbsolute p = true) :
    (clean p).length ≤ max 1 (trail (components p)).length := by
  have hfold := length_trail_foldl_le (components p) []
  generalize hpassed : (components p).foldl (step true) [] = passed at hfold
  have hclean : clean p = slash :: joined passed.reverse := by simp [clean, h, hpassed]
  have hrev : (trail passed.reverse).length = (trail passed).length :=
    ((List.reverse_perm passed).flatMap_right _).length_eq
  rw [hclean]
  cases hr : passed.reverse with
  | nil => exact Nat.le_max_left 1 _
  | cons c cs =>
    rw [slash_joined, ← hr, hrev]
    simp only [trail_nil, List.length_nil, Nat.zero_add] at hfold
    exact Nat.le_trans hfold (Nat.le_max_right 1 _)

@[simp] theorem components_slash (p : Bytes) : components (slash :: p) = components p := by
  simp [components, Bytes.splitOn_sep]

theorem length_trail_components_le {p : Bytes} (h : isAbsolute p = true) :
    (trail (components p)).length ≤ p.length := by
  obtain ⟨q, rfl⟩ := isAbsolute_iff.mp h
  have hfilter := length_trail_filter_le (fun c => c != [] && c != dot) (Bytes.splitOn slash q)
  rw [components_slash]
  rwa [trail_splitOn] at hfilter

/-- Going up makes a path shorter, as long as it leads anywhere else. -/
theorem Rooted.length_parent_lt {p : Rooted} (h : p.parent ≠ p) : p.parent.text.length < p.text.length := by
  obtain ⟨q, hq⟩ := isAbsolute_iff.mp p.rooted
  obtain ⟨front, last, hp, hlast⟩ := exists_last_slash (p := p.text) (by simp [hq])
  have hparent : p.parent.text = clean (front ++ [slash]) := by
    simp only [Rooted.parent, Path.parent, hp, upToSlash_append hlast]
  cases front with
  | nil =>
    -- The last slash is the root's own: what is above is the root, and the path is longer unless it is the root.
    have hroot : p.parent.text = [slash] := hparent
    cases last with
    | nil => exact absurd (Rooted.ext (hroot.trans hp.symm)) h
    | cons b last => simp [hroot, hp]
  | cons b front =>
    have hb : isAbsolute (b :: front) = true := by
      rw [hq] at hp
      rw [isAbsolute_cons, ← (List.cons.inj hp).1]
      rfl
    have hcomponents : components (b :: front ++ [slash]) = components (b :: front) := by
      rw [components, Bytes.splitOn_append, List.filter_append]
      exact List.append_nil _
    have hclean := length_clean_le (p := b :: front ++ [slash]) hb
    have hle := length_trail_components_le hb
    rw [hparent, hp]
    rw [hcomponents] at hclean
    simp only [List.length_cons, List.length_append] at *
    omega

end Dispatch.Path
