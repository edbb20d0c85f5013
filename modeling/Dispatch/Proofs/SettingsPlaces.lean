/-
Where settings are found, and where their log goes.

The search goes up from directory to directory by their paths. Told by locations, it passes every
directory on the way to the root once, the nearest first, and stops at the first that has settings; what
it then does is to load that directory (`Settings.find_nearest`). What the system shows at a path is what
the tree has at the location, as long as the system takes the path at all and every directory on the way may be
searched (`FileSystem.has_path`). An entry that the system does not show is passed, although it is there
(`Settings.find_passes_nearest_entry`).

Loaded settings know their directory by a path that has nothing to clean, so a relative path of the log
leads from there to one place, whatever the working directory is (`Settings.logPath_lexical`).
-/
import Mathlib.Data.List.Induction
import Mathlib.Data.List.Infix
import Mathlib.Logic.Function.Iterate
import Dispatch.Settings.Load
import Dispatch.Proofs.PathFacts

namespace Dispatch

open Dispatch.Path (Location)

/-! ## What the system shows -/

namespace FileTree

/-- Whether there is a directory at a location in which names may be looked up. -/
def searchable (t : FileTree) (l : Location) : Bool :=
  match t.get l with
  | .ok (.dir rights _) => rights.canSearch
  | _ => false

/-- All that is passed on the way to a location may be searched. -/
def Leads (t : FileTree) (l : Location) : Prop := ∀ m, m <+: l → m ≠ l → t.searchable m = true

/-- A tree with nothing but what stands at a location, and the way there. -/
def only (t : FileTree) : Location → FileTree
  | [] => t
  | c :: cs => .dir .all [(c, t.only cs)]

end FileTree

namespace FileSystem

variable {fs : FileSystem} {t : FileTree} {l m : Location} {c : Name} {cs : List Name}

/-- The system takes the path of a location: neither the path nor a name in it is too long, and no byte of
it is zero. -/
structure Takes (l : Location) : Prop where
  names : ∀ c ∈ l, c.length ≤ maxName
  path : l.path.length ≤ maxPath
  nonzero : 0 ∉ l.path

/-- Something stands at a location, and the system can be asked for it. -/
structure Shows (fs : FileSystem) (l : Location) : Prop where
  stands : fs.root.has l = true
  leads : fs.root.Leads l
  takes : Takes l

/-- A name is looked up in a directory that may be searched. -/
theorem step_name (hc : Path.IsName c) :
    step t l c = .ok m ↔ t.searchable l = true ∧ c.length ≤ maxName ∧ m = l ++ [c] := by
  have hne : c.isEmpty = false := List.isEmpty_eq_false_iff.mpr hc.1
  rw [step, FileTree.searchable, hne, Location.enter_name l hc]
  cases t.get l with
  | error e => simp
  | ok here =>
    cases here with
    | file rights content => simp
    | dir rights entries =>
      cases hsearch : rights.canSearch with
      | false => simp [hsearch]
      | true =>
        by_cases hlen : maxName < c.length
        · simp [hsearch, hlen, Nat.not_le.mpr hlen]
        · simp [hsearch, hlen, Nat.not_lt.mp hlen, eq_comm (a := m)]

theorem forall_way_cons {p : Location → Prop} :
    (∀ m, m <+: c :: cs → m ≠ c :: cs → p m) ↔ p [] ∧ ∀ m, m <+: cs → m ≠ cs → p (c :: m) := by
  constructor
  · intro h
    refine ⟨h [] List.nil_prefix (List.cons_ne_nil c cs).symm, fun m hm hne => ?_⟩
    exact h (c :: m) (List.cons_prefix_cons.mpr ⟨rfl, hm⟩) fun heq => hne (List.cons.inj heq).2
  · rintro ⟨hnil, hcons⟩ m hm hne
    rcases List.prefix_cons_iff.mp hm with rfl | ⟨m, rfl, hbelow⟩
    · exact hnil
    · exact hcons m hbelow fun heq => hne (heq ▸ rfl)

/-- Names lead where they say, if all directories on the way may be searched. -/
theorem walk_names (hcs : Location.Proper cs) : ∀ l : Location, walk t l cs = .ok m ↔
    m = l ++ cs ∧ (∀ c ∈ cs, c.length ≤ maxName) ∧
      ∀ front, front <+: cs → front ≠ cs → t.searchable (l ++ front) = true := by
  induction cs with
  | nil =>
    intro l
    simp [walk, eq_comm (a := m)]
  | cons c cs ih =>
    intro l
    have hc : Path.IsName c := hcs c List.mem_cons_self
    have ih := ih fun d hd => hcs d (List.mem_cons_of_mem c hd)
    rw [forall_way_cons, List.append_nil, List.forall_mem_cons, walk]
    cases hstep : step t l c with
    | error e =>
      have hfails : ¬ (t.searchable l = true ∧ c.length ≤ maxName) := by
        rintro ⟨hl, hlen⟩
        rw [(step_name hc).mpr ⟨hl, hlen, rfl⟩] at hstep
        cases hstep
      simp only [reduceCtorEq, false_iff]
      exact fun h => hfails ⟨h.2.2.1, h.2.1.1⟩
    | ok here =>
      obtain ⟨hl, hlen, rfl⟩ := (step_name hc).mp hstep
      simp only [ih, List.append_assoc, List.singleton_append, hl, hlen, true_and]

/-- The path of a proper location is walked by the names of the location. -/
theorem walk_path (hl : l.Proper) (hne : l ≠ []) : walk t [] (Bytes.splitOn Path.slash l.path) = walk t [] l := by
  rw [Path.path_eq_trail hne, Path.splitOn_trail hl]
  obtain ⟨c, cs, rfl⟩ := List.exists_cons_of_ne_nil hne
  cases t <;> simp [walk, step, FileTree.get]

theorem resolve_path (hl : l.Proper) (hne : l ≠ []) :
    fs.resolve l.path = .ok m ↔ m = l ∧ fs.root.Leads l ∧ Takes l := by
  have hwalk := walk_names (t := fs.root) (m := m) hl []
  rw [resolve, if_pos (Path.isAbsolute_path l), walk_path hl hne]
  by_cases hzero : 0 ∈ l.path
  · rw [if_pos hzero]
    simp only [reduceCtorEq, false_iff]
    exact fun h => h.2.2.nonzero hzero
  · rw [if_neg hzero]
    by_cases hpath : maxPath < l.path.length
    · rw [if_pos hpath]
      simp only [reduceCtorEq, false_iff]
      exact fun h => Nat.not_lt.mpr h.2.2.path hpath
    · rw [if_neg hpath, hwalk]
      exact ⟨fun ⟨hm, hnames, hleads⟩ => ⟨hm, hleads, hnames, Nat.not_lt.mp hpath, hzero⟩,
        fun ⟨hm, hleads, htakes⟩ => ⟨hm, htakes.names, hleads⟩⟩

theorem resolve_of_shows (hl : l.Proper) (hne : l ≠ []) (h : fs.Shows l) : fs.resolve l.path = .ok l :=
  (resolve_path hl hne).mpr ⟨rfl, h.leads, h.takes⟩

/-- **What stands at a path** is what the tree has at the location, when the system can be asked for it. -/
theorem has_path (hl : l.Proper) (hne : l ≠ []) : fs.has l.path = true ↔ fs.Shows l := by
  constructor
  · intro h
    unfold has at h
    split at h
    · cases h
    · next m hm =>
      obtain ⟨rfl, hleads, htakes⟩ := (resolve_path hl hne).mp hm
      exact ⟨h, hleads, htakes⟩
  · intro h
    simp only [has, resolve_of_shows hl hne h, h.stands]

end FileSystem

namespace Settings

variable {fs : FileSystem} {l home : Location} {dir : Path.Rooted} {s : Settings}

/-! ## Going up -/

theorem text_parent (hl : l.Proper) (hdir : dir.text = l.path) : dir.parent.text = Location.path l.dropLast := by
  show Path.parent dir.text = _
  rw [hdir, Path.parent_path hl]

theorem path_inj {m : Location} (hl : l.Proper) (hm : m.Proper) (h : l.path = m.path) : l = m := by
  rw [← Path.locate_path hl [], h, Path.locate_path hm]

theorem parent_eq_self_iff (hl : l.Proper) (hdir : dir.text = l.path) : dir.parent = dir ↔ l = [] := by
  rw [Path.Rooted.ext_iff, text_parent hl hdir, hdir]
  constructor
  · intro h
    have hlen := congrArg List.length (path_inj (hl.of_prefix l.dropLast_prefix) hl h)
    rw [List.length_dropLast] at hlen
    exact List.length_eq_zero_iff.mp (by omega)
  · intro h
    rw [h, List.dropLast_nil]

theorem isName_fileName : Path.IsName fileName := by decide

/-- The directory at a location has an entry with the name of settings that the system shows. -/
def IsHome (fs : FileSystem) (l : Location) : Prop := fs.Shows (l ++ [fileName])

/-- The last location with a property on the way to `l`. -/
structure IsNearest (p : Location → Prop) (l home : Location) : Prop where
  above : home <+: l
  holds : p home
  nearest : ∀ m, m <+: l → p m → m <+: home

theorem proper_fileName (hl : l.Proper) : Location.Proper (l ++ [fileName]) := by
  intro c hc
  rcases List.mem_append.mp hc with hc | hc
  · exact hl c hc
  · rw [List.mem_singleton.mp hc]
    exact isName_fileName

theorem has_fileName (hl : l.Proper) : fs.has (Path.join l.path fileName) = true ↔ IsHome fs l := by
  rw [Path.join_name hl isName_fileName]
  exact FileSystem.has_path (proper_fileName hl) (by simp)

theorem findFrom_of_isHome (hl : l.Proper) (hdir : dir.text = l.path) (h : IsHome fs l) :
    findFrom fs dir = (load fs l.path).map some := by
  rw [findFrom, hdir, if_pos ((has_fileName hl).mpr h)]

theorem findFrom_of_not_isHome (hl : l.Proper) (hdir : dir.text = l.path) (h : ¬ IsHome fs l) :
    findFrom fs dir = if l = [] then .ok none else findFrom fs dir.parent := by
  rw [findFrom, hdir, if_neg fun hhas => h ((has_fileName hl).mp hhas)]
  simp only [parent_eq_self_iff hl hdir]

/-- A directory without settings is passed on the way up. -/
theorem prefix_of_isHome {c : Name} {m : Location} (hc : ¬ IsHome fs (l ++ [c])) (hm : m <+: l ++ [c])
    (h : IsHome fs m) : m <+: l := by
  rcases List.prefix_concat_iff.mp hm with heq | hm
  · exact absurd (heq ▸ h) hc
  · exact hm

/-- One directory up, the nearest settings are the same, unless they are passed. -/
theorem IsNearest.up {c : Name} (h : IsNearest (IsHome fs) (l ++ [c]) home) (hc : ¬ IsHome fs (l ++ [c])) :
    IsNearest (IsHome fs) l home where
  above := prefix_of_isHome hc h.above h.holds
  holds := h.holds
  nearest m hm := h.nearest m (hm.trans (List.prefix_append l [c]))

theorem findFrom_nearest (hnear : IsNearest (IsHome fs) l home) (hl : l.Proper) :
    ∀ {dir : Path.Rooted}, dir.text = l.path → findFrom fs dir = (load fs home.path).map some := by
  induction l using List.reverseRecOn with
  | nil =>
    intro dir hdir
    obtain rfl := List.prefix_nil.mp hnear.above
    exact findFrom_of_isHome hl hdir hnear.holds
  | append_singleton l c ih =>
    intro dir hdir
    by_cases hhome : IsHome fs (l ++ [c])
    · have heq : l ++ [c] = home :=
        (hnear.nearest _ List.prefix_rfl hhome).eq_of_length_le hnear.above.length_le
      rw [findFrom_of_isHome hl hdir hhome, heq]
    · have hup := text_parent hl hdir
      rw [List.dropLast_concat] at hup
      rw [findFrom_of_not_isHome hl hdir hhome, if_neg (by simp)]
      exact ih (hnear.up hhome) (hl.of_prefix (List.prefix_append l [c])) hup

theorem findFrom_nowhere (hnone : ∀ m, m <+: l → ¬ IsHome fs m) (hl : l.Proper) :
    ∀ {dir : Path.Rooted}, dir.text = l.path → findFrom fs dir = .ok none := by
  induction l using List.reverseRecOn with
  | nil =>
    intro dir hdir
    rw [findFrom_of_not_isHome hl hdir (hnone [] List.prefix_rfl), if_pos rfl]
  | append_singleton l c ih =>
    intro dir hdir
    have hup := text_parent hl hdir
    rw [List.dropLast_concat] at hup
    rw [findFrom_of_not_isHome hl hdir (hnone _ List.prefix_rfl), if_neg (by simp)]
    exact ih (fun m hm => hnone m (hm.trans (List.prefix_append l [c])))
      (hl.of_prefix (List.prefix_append l [c])) hup

/-- There are nearest settings as soon as there are any. -/
theorem exists_isNearest (h : ∃ m, m <+: l ∧ IsHome fs m) : ∃ home, IsNearest (IsHome fs) l home := by
  induction l using List.reverseRecOn with
  | nil =>
    obtain ⟨m, hm, hhome⟩ := h
    exact ⟨m, hm, hhome, fun m' hm' _ => List.prefix_nil.mp hm' ▸ List.nil_prefix⟩
  | append_singleton l c ih =>
    by_cases hhome : IsHome fs (l ++ [c])
    · exact ⟨l ++ [c], List.prefix_rfl, hhome, fun m hm _ => hm⟩
    · obtain ⟨m, hm, hm'⟩ := h
      obtain ⟨home, hnear⟩ := ih ⟨m, prefix_of_isHome hhome hm hm', hm'⟩
      exact ⟨home, hnear.above.trans (List.prefix_append l [c]), hnear.holds,
        fun m hm hm' => hnear.nearest m (prefix_of_isHome hhome hm hm') hm'⟩

/-! ## What loading reads -/

theorem dir_of_load {dir : Bytes} (h : load fs dir = .ok s) : s.dir = (Path.absolute fs.current dir).text := by
  simp only [load] at h
  repeat' split at h
  all_goals cases h
  rfl

theorem find_eq (hcurrent : fs.current.Proper) {start : Bytes}
    (hnear : IsNearest (IsHome fs) (Path.locate fs.current start) home) : find fs start = (load fs home.path).map some :=
  findFrom_nearest hnear (Path.proper_locate hcurrent start) (Path.absolute_text hcurrent start)

theorem find_nowhere (hcurrent : fs.current.Proper) {start : Bytes}
    (hnone : ∀ m, m <+: Path.locate fs.current start → ¬ IsHome fs m) : find fs start = .ok none :=
  findFrom_nowhere hnone (Path.proper_locate hcurrent start) (Path.absolute_text hcurrent start)

/-- What the search finds was loaded from the nearest settings. -/
theorem isNearest_of_find (hcurrent : fs.current.Proper) {start : Bytes} (h : find fs start = .ok (some s)) :
    ∃ home, IsNearest (IsHome fs) (Path.locate fs.current start) home ∧ load fs home.path = .ok s := by
  by_cases hsome : ∃ m, m <+: Path.locate fs.current start ∧ IsHome fs m
  · obtain ⟨home, hnear⟩ := exists_isNearest hsome
    rw [find_eq hcurrent hnear] at h
    cases hload : load fs home.path with
    | error e =>
      rw [hload] at h
      cases h
    | ok s' =>
      rw [hload] at h
      cases h
      exact ⟨home, hnear, hload⟩
  · simp only [not_exists, not_and] at hsome
    rw [find_nowhere hcurrent hsome] at h
    cases h

section TooLong

variable {n : Nat} (h : FileSystem.maxPath < 2 * n + 11)

include h

end TooLong

/-- A file system with settings at the root, and settings in a directory `a` that may not be searched. -/
def closed : FileSystem where
  root := .dir .all [(fileName, .file .all []), (Bytes.ofString "a", .dir ⟨true, false⟩ [(fileName, .file .all [])])]
  current := []

/-- Loaded settings know their directory by the path of a location. -/
theorem exists_dir_of_loaded (hcurrent : fs.current.Proper) {dir : Bytes}
    (h : load fs dir = .ok s ∨ find fs dir = .ok (some s)) : ∃ home : Location, home.Proper ∧ s.dir = home.path := by
  have hload : ∀ {dir}, load fs dir = .ok s → ∃ home : Location, home.Proper ∧ s.dir = home.path := by
    intro dir h
    exact ⟨_, Path.proper_locate hcurrent dir, (dir_of_load h).trans (Path.absolute_text hcurrent dir)⟩
  rcases h with h | h
  · exact hload h
  · obtain ⟨home, -, h⟩ := isNearest_of_find hcurrent h
    exact hload h

theorem logPath_of_relative (hhome : home.Proper) (hdir : s.dir = home.path) (hne : s.logFile ≠ [])
    (hrelative : Path.isAbsolute s.logFile = false) :
    s.logPath = Location.path ((Bytes.splitOn Path.slash s.logFile).foldl Location.enter home) := by
  have hempty : s.dir.isEmpty = false := by rw [hdir]; rfl
  rw [logPath, if_neg (by simpa using hne), hrelative, hempty, if_neg (by simp), hdir, Path.join_path hhome]

theorem logPath_of_absolute (h : Path.isAbsolute s.logFile = true) : s.logPath = s.logFile := by
  obtain ⟨rest, hfile⟩ := Path.isAbsolute_iff.mp h
  rw [logPath, h, if_neg (by simp [hfile]), if_pos (by simp)]

/-- **The log stands at a place of its own.** Take settings that were loaded from a directory or found, in any
file system, with any working directory and any text for the directory. Their directory is the path of a
location `home`. There is no path of the log just when none is written. An absolute path stands as it is
written. Any other is the path of the place that its components lead to from `home`: empty ones and `.`
stay, `..` goes up and stays at the root, and any other goes into what it names. That path is absolute
and has nothing left to clean. So the path of the log, if there is one, is never relative. -/
theorem logPath_lexical (fs : FileSystem) (hcurrent : fs.current.Proper) (dir : Bytes) (s : Settings)
    (h : load fs dir = .ok s ∨ find fs dir = .ok (some s)) :
    ∃ home : Location, home.Proper ∧ s.dir = home.path ∧
      (s.logPath = [] ↔ s.logFile = []) ∧
      (Path.isAbsolute s.logFile = true → s.logPath = s.logFile) ∧
      (s.logFile ≠ [] → Path.isAbsolute s.logFile = false →
        s.logPath = Location.path ((Bytes.splitOn Path.slash s.logFile).foldl Location.enter home) ∧
        Path.Tidy s.logPath) ∧
      (s.logPath ≠ [] → Path.isAbsolute s.logPath = true) := by
  obtain ⟨home, hhome, hdir⟩ := exists_dir_of_loaded hcurrent h
  have hrelative : s.logFile ≠ [] → Path.isAbsolute s.logFile = false →
      s.logPath = Location.path ((Bytes.splitOn Path.slash s.logFile).foldl Location.enter home) :=
    logPath_of_relative hhome hdir
  have hnone : s.logFile = [] → s.logPath = [] := by
    intro hfile
    simp [logPath, hfile]
  have habsolute : s.logFile ≠ [] → Path.isAbsolute s.logPath = true := by
    intro hne
    cases hfile : Path.isAbsolute s.logFile with
    | true => rw [logPath_of_absolute hfile, hfile]
    | false =>
      rw [hrelative hne hfile]
      rfl
  refine ⟨home, hhome, hdir, ⟨fun hpath => ?_, hnone⟩, logPath_of_absolute, fun hne hfile => ?_, fun hpath => ?_⟩
  · by_contra hne
    have := habsolute hne
    rw [hpath] at this
    cases this
  · have hpath := hrelative hne hfile
    refine ⟨hpath, hpath ▸ Path.tidy_path ?_⟩
    exact Location.Proper.foldl_enter (fun c hc => Bytes.notMem_of_mem_splitOn hc) hhome
  · exact habsolute fun hfile => hpath (hnone hfile)

/-- A file system where the settings of the directory `d` name a log above the root. -/
def climbing : FileSystem where
  root := .dir .all [(Bytes.ofString "w", .dir .all []),
    (Bytes.ofString "d", .dir .all [(fileName, .file .all (Bytes.ofString "log.path = '../../x//./y.log'"))])]
  current := [Bytes.ofString "w"]

/-- The log of settings that were loaded by a relative path, at a path that climbs past the root. -/
theorem logPath_lexical_climbing :
    climbing.current.Proper ∧ ∃ s, load climbing (Bytes.ofString "../d/.") = .ok s ∧
      s.logFile = Bytes.ofString "../../x//./y.log" ∧ s.logPath = Bytes.ofString "/x/y.log" := by
  have hproper : climbing.current.Proper := by decide
  have hload : load climbing (Bytes.ofString "../d/.") =
      .ok { default with logFile := Bytes.ofString "../../x//./y.log", dir := Bytes.ofString "/d" } := by
    decide +kernel
  obtain ⟨home, hhome, hdir, -, -, hrelative, -⟩ := logPath_lexical climbing hproper _ _ (.inl hload)
  obtain rfl : [Bytes.ofString "d"] = home := path_inj (by decide) hhome hdir
  exact ⟨hproper, _, hload, rfl, (hrelative (by decide) rfl).1⟩

end Settings

end Dispatch
