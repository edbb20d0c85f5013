/-
Paths told by the places they lead to. Cleaning an absolute path passes its components on a stack and
writes the stack out; the place that the path leads to is found by going from place to place
(`Path.locate`). The two agree: a clean absolute path is the path of the place (`clean_eq`), and so are
the absolute form of a path, two paths joined, and the path of the directory above.

All places that paths lead to from a proper location are proper: their components are names, and so their
paths have nothing left to clean (`Path.Tidy`).
-/
import Mathlib.Data.List.Basic
import Dispatch.Path

namespace Dispatch

namespace Bytes

theorem splitOn_of_notMem {sep : UInt8} {bs : Bytes} (h : sep ∉ bs) : splitOn sep bs = [bs] := by
  induction bs with
  | nil => rfl
  | cons b bs ih =>
    simp only [List.mem_cons, not_or] at h
    obtain ⟨piece, pieces, hbs, hb⟩ := splitOn_other (Ne.symm h.1) bs
    rw [ih h.2] at hbs
    obtain ⟨rfl, rfl⟩ := List.cons.inj hbs
    exact hb

theorem notMem_of_mem_splitOn {sep : UInt8} {bs piece : Bytes} (h : piece ∈ splitOn sep bs) : sep ∉ piece := by
  induction bs generalizing piece with
  | nil => simp_all [splitOn]
  | cons b bs ih =>
    by_cases hb : b = sep
    · rw [hb, splitOn_sep, List.mem_cons] at h
      rcases h with rfl | h
      · exact List.not_mem_nil
      · exact ih h
    · obtain ⟨first, pieces, hbs, hcons⟩ := splitOn_other hb bs
      rw [hcons, List.mem_cons] at h
      rw [hbs] at ih
      rcases h with rfl | h
      · simp only [List.mem_cons, not_or]
        exact ⟨Ne.symm hb, ih List.mem_cons_self⟩
      · exact ih (List.mem_cons_of_mem first h)

end Bytes

namespace Path

variable {l current : Location} {c : Name} {p : Bytes}

/-- A component that names an entry of a directory. -/
def IsName (c : Name) : Prop := c ≠ [] ∧ c ≠ dot ∧ c ≠ dotDot ∧ slash ∉ c

instance (c : Name) : Decidable (IsName c) :=
  inferInstanceAs (Decidable (c ≠ [] ∧ c ≠ dot ∧ c ≠ dotDot ∧ slash ∉ c))

/-- A location whose components are all names. -/
def Location.Proper (l : Location) : Prop := ∀ c ∈ l, IsName c

instance (l : Location) : Decidable l.Proper := inferInstanceAs (Decidable (∀ c ∈ l, IsName c))

/-- An absolute path with nothing to clean: the root, or one slash before each of its components, none of
which is empty, `.` or `..`, and none after the last. -/
def Tidy (p : Bytes) : Prop :=
  p = [slash] ∨ ∃ cs, cs ≠ [] ∧ Bytes.splitOn slash p = [] :: cs ∧ ∀ c ∈ cs, c ≠ [] ∧ c ≠ dot ∧ c ≠ dotDot

/-! ## Going from place to place -/

namespace Location

@[simp] theorem enter_nil (l : Location) : l.enter [] = l := by simp [enter]

theorem enter_name (l : Location) (h : IsName c) : l.enter c = l ++ [c] := by
  simp [enter, h.1, h.2.1, h.2.2.1]

theorem foldl_enter_names {cs : List Name} (h : Proper cs) (l : Location) : cs.foldl enter l = l ++ cs := by
  induction cs generalizing l with
  | nil => simp
  | cons c cs ih =>
    rw [List.foldl_cons, enter_name l (h c List.mem_cons_self), ih fun d hd => h d (List.mem_cons_of_mem c hd)]
    simp

theorem Proper.of_prefix {l' : Location} (h : l.Proper) (hp : l' <+: l) : l'.Proper :=
  fun c hc => h c (hp.subset hc)

theorem Proper.enter (h : l.Proper) (hc : slash ∉ c) : (l.enter c).Proper := by
  unfold Location.enter
  split
  · exact h
  · next hstay =>
    split
    · exact h.of_prefix l.dropLast_prefix
    · next hup =>
      intro d hd
      rcases List.mem_append.mp hd with hd | hd
      · exact h d hd
      · obtain rfl := List.mem_singleton.mp hd
        exact ⟨fun h => hstay (.inl h), fun h => hstay (.inr h), hup, hc⟩

theorem Proper.foldl_enter {cs : List Name} (hcs : ∀ c ∈ cs, slash ∉ c) :
    ∀ {l : Location}, l.Proper → Proper (cs.foldl Location.enter l) := by
  induction cs with
  | nil => exact fun h => h
  | cons c cs ih =>
    intro l h
    exact ih (fun d hd => hcs d (List.mem_cons_of_mem c hd)) (h.enter (hcs c List.mem_cons_self))

theorem proper_nil : Proper [] := nofun

end Location

theorem proper_locate (h : current.Proper) (p : Bytes) : (locate current p).Proper := by
  refine Location.Proper.foldl_enter (fun c hc => Bytes.notMem_of_mem_splitOn hc) ?_
  split
  · exact Location.proper_nil
  · exact h

/-! ## Paths of locations -/

theorem path_eq_trail (h : l ≠ []) : l.path = trail l := by
  cases l with
  | nil => exact absurd rfl h
  | cons c cs => exact slash_joined c cs

theorem splitOn_trail (h : l.Proper) : Bytes.splitOn slash (trail l) = [] :: l := by
  induction l with
  | nil => rfl
  | cons c l ih =>
    have hc : slash ∉ c := (h c List.mem_cons_self).2.2.2
    have hrest := ih fun d hd => h d (List.mem_cons_of_mem c hd)
    rw [trail_cons, Bytes.splitOn_sep]
    cases l with
    | nil => rw [trail_nil, List.append_nil, Bytes.splitOn_of_notMem hc]
    | cons d l =>
      rw [trail_cons, Bytes.splitOn_sep] at hrest
      rw [trail_cons, Bytes.splitOn_append, Bytes.splitOn_of_notMem hc, (List.cons.inj hrest).2]
      rfl

theorem tidy_path (h : l.Proper) : Tidy l.path := by
  by_cases hl : l = []
  · exact .inl (hl ▸ rfl)
  · exact .inr ⟨l, hl, path_eq_trail hl ▸ splitOn_trail h, fun c hc => ⟨(h c hc).1, (h c hc).2.1, (h c hc).2.2.1⟩⟩

theorem isAbsolute_path (l : Location) : isAbsolute l.path = true := rfl

/-- The path of a location leads to it, from wherever. -/
theorem locate_path (h : l.Proper) (current : Location) : locate current l.path = l := by
  rw [locate, if_pos (isAbsolute_path l)]
  by_cases hl : l = []
  · rw [hl]
    rfl
  · rw [path_eq_trail hl, splitOn_trail h, List.foldl_cons, Location.enter_nil, Location.foldl_enter_names h,
      List.nil_append]

/-- Where a path leads that goes on behind an absolute one. -/
theorem locate_append (h : isAbsolute p = true) (current : Location) (q : Bytes) :
    locate current (p ++ slash :: q) = (Bytes.splitOn slash q).foldl Location.enter (locate current p) := by
  obtain ⟨r, rfl⟩ := isAbsolute_iff.mp h
  have happend : isAbsolute (slash :: r ++ slash :: q) = true := rfl
  rw [locate, locate, if_pos happend, if_pos h, Bytes.splitOn_append, List.foldl_append]

/-! ## Cleaning -/

/-- Going up takes the last component away, as long as none of them is a way up itself. -/
theorem step_eq {passed : List Name} (h : dotDot ∉ passed) (c : Name) :
    step true passed c = if c = dotDot then passed.tail else c :: passed := by
  cases passed with
  | nil => rfl
  | cons last before =>
    have hlast : last ≠ dotDot := fun heq => h (heq ▸ List.mem_cons_self)
    simp [step, hlast]

/-- The stack of components passed is the place gone to, the last component first. -/
theorem reverse_foldl_step (cs : List Name) : ∀ passed : List Name, dotDot ∉ passed →
    ((cs.filter fun c => c != [] && c != dot).foldl (step true) passed).reverse =
      cs.foldl Location.enter passed.reverse := by
  induction cs with
  | nil => exact fun _ _ => rfl
  | cons c cs ih =>
    intro passed hpassed
    rw [List.foldl_cons, List.filter_cons, Location.enter]
    by_cases hstay : c = [] ∨ c = dot
    · have hskip : ¬ (c != [] && c != dot) = true := by
        rcases hstay with rfl | rfl <;> decide
      rw [if_neg hskip, if_pos hstay, ih passed hpassed]
    · have hkeep : (c != [] && c != dot) = true := by simpa [not_or] using hstay
      rw [if_pos hkeep, if_neg hstay, List.foldl_cons, step_eq hpassed]
      split
      · rw [ih passed.tail fun hmem => hpassed (List.mem_of_mem_tail hmem), List.dropLast_reverse]
      · next hup => rw [ih (c :: passed) (by simp [Ne.symm hup, hpassed]), List.reverse_cons]

/-- **Cleaning goes where the path leads.** -/
theorem clean_eq (h : isAbsolute p = true) : clean p = (locate [] p).path := by
  have hfold := reverse_foldl_step (Bytes.splitOn slash p) [] List.not_mem_nil
  simp only [clean, locate, h, if_true, components, hfold, List.reverse_nil]
  rfl

theorem absolute_text (h : current.Proper) (p : Bytes) : (absolute current p).text = (locate current p).path := by
  unfold absolute
  split
  · next hp =>
    refine (clean_eq hp).trans ?_
    rw [locate, locate, if_pos hp, if_pos hp]
  · next hp =>
    have hjoined : isAbsolute (current.path ++ slash :: p) = true := rfl
    refine (clean_eq hjoined).trans ?_
    rw [locate_append (isAbsolute_path current), locate_path h, locate, if_neg hp]

/-- To join a path to that of a location is to go on from there. -/
theorem join_path (h : l.Proper) (q : Bytes) :
    join l.path q = ((Bytes.splitOn slash q).foldl Location.enter l).path := by
  have hjoin : join l.path q = clean (l.path ++ slash :: q) := rfl
  rw [hjoin, clean_eq rfl, locate_append (isAbsolute_path l), locate_path h]

theorem join_name (h : l.Proper) (hc : IsName c) : join l.path c = (l ++ [c]).path := by
  rw [join_path h, Bytes.splitOn_of_notMem hc.2.2.2, List.foldl_cons, Location.enter_name l hc, List.foldl_nil]

/-! ## Going up -/

theorem parent_path (h : l.Proper) : parent l.path = Location.path l.dropLast := by
  rcases List.eq_nil_or_concat' l with rfl | ⟨front, c, rfl⟩
  · rfl
  · have hfront : Location.Proper front := h.of_prefix (List.prefix_append front [c])
    have hc : slash ∉ c := (h c (by simp)).2.2.2
    have hpath : Location.path (front ++ [c]) = trail front ++ slash :: c := by
      rw [path_eq_trail (by simp)]
      simp [trail]
    have habs : isAbsolute (trail front ++ [slash]) = true := by cases front <;> rfl
    rw [parent, hpath, upToSlash_append hc, clean_eq habs, locate, if_pos habs, Bytes.splitOn_append,
      splitOn_trail hfront, List.cons_append, List.foldl_cons, Location.enter_nil, List.foldl_append,
      Location.foldl_enter_names hfront, List.dropLast_concat]
    rfl

end Path

end Dispatch
