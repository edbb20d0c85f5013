/-
Settings from files that say nothing but settings (`Sheet`): a header for each group that comes in, in either
order, and below it some of the settings of the group, in any order. What a sheet says is taken and the rest
keeps its default, so it does not matter in which order it is said (`load_sheet`).
-/
import Mathlib.Data.List.Nodup
import Mathlib.Data.List.Perm.Basic
import Dispatch.Settings.Load
import Dispatch.Proofs.TomlBlocks

namespace Dispatch.Settings

open Toml (Key Scalar PlainText Block Statement Layout)

/-! ## Sheets -/

inductive Group where
  | machine
  | log
  deriving DecidableEq

/-- What files can set. -/
inductive Setting where
  | symbolCapacity
  | trace
  | verbosity
  | logFile
  deriving DecidableEq

/-- A setting with its value, as a file gives it. -/
inductive Entry where
  | symbolCapacity (n : Int64)
  | trace (b : Bool)
  | verbosity (n : Int64)
  | logFile (p : PlainText)

def Group.name : Group → Key
  | machine => "runtime".toList
  | log => "log".toList

namespace Setting

def group : Setting → Group
  | symbolCapacity | trace => .machine
  | verbosity | logFile => .log

def key : Setting → Key
  | symbolCapacity => "symbol-capacity".toList
  | trace => "trace-dispatch".toList
  | verbosity => "verbosity".toList
  | logFile => "path".toList

/-- Two settings agree in one of the things that files can set. -/
def Agree (k : Setting) (s s' : Settings) : Prop :=
  match k with
  | symbolCapacity => s.symbolCapacity = s'.symbolCapacity
  | trace => s.trace = s'.trace
  | verbosity => s.verbosity = s'.verbosity
  | logFile => s.logFile = s'.logFile

end Setting

namespace Entry

def setting : Entry → Setting
  | symbolCapacity _ => .symbolCapacity
  | trace _ => .trace
  | verbosity _ => .verbosity
  | logFile _ => .logFile

def value : Entry → Scalar
  | symbolCapacity n => .integer n
  | trace b => .boolean b
  | verbosity n => .integer n
  | logFile p => .string p.val

/-- The settings with an entry taken. -/
def set (s : Settings) : Entry → Settings
  | symbolCapacity n => { s with symbolCapacity := n }
  | trace b => { s with trace := b }
  | verbosity n => { s with verbosity := n }
  | logFile p => { s with logFile := Text.Utf8.encodeAll p.val }

/-- The settings have the value of an entry. -/
def IsIn (s : Settings) : Entry → Prop
  | symbolCapacity n => s.symbolCapacity = n
  | trace b => s.trace = b
  | verbosity n => s.verbosity = n
  | logFile p => s.logFile = Text.Utf8.encodeAll p.val

end Entry

/-- A group with some of its settings. -/
structure Part where
  group : Group
  entries : List Entry
  grouped : ∀ e ∈ entries, e.setting.group = group
  distinct : (entries.map Entry.setting).Nodup

/-- A file with nothing but settings, each group at most once. -/
structure Sheet where
  parts : List Part
  distinct : (parts.map Part.group).Nodup

theorem key_injective : Function.Injective Setting.key := by
  intro k k' h
  cases k <;> cases k' <;> first | rfl | exact absurd h (by decide)

theorem name_injective : Function.Injective Group.name := by
  intro g g' h
  cases g <;> cases g' <;> first | rfl | exact absurd h (by decide)

/-- A part as a block of a document. -/
def Part.block (p : Part) : Block where
  name := p.group.name
  entries := p.entries.map fun e => (e.setting.key, e.value)
  distinct := by
    have hkeys := p.distinct.map key_injective
    simpa [Function.comp_def] using hkeys

namespace Sheet

/-- All that a sheet says, in its order. -/
def entries (sheet : Sheet) : List Entry := sheet.parts.flatMap Part.entries

def statements (sheet : Sheet) : List Statement := (sheet.parts.map Part.block).flatMap Block.statements

/-- A sheet sets nothing twice. -/
theorem nodup_settings (sheet : Sheet) : (sheet.entries.map Entry.setting).Nodup := by
  rw [entries, List.map_flatMap, List.nodup_flatMap]
  refine ⟨fun p _ => p.distinct, (List.pairwise_map.mp sheet.distinct).imp ?_⟩
  -- A setting of two parts would be of two groups.
  intro p p' hgroups k hk hk'
  obtain ⟨e, he, rfl⟩ := List.mem_map.mp hk
  obtain ⟨e', he', heq⟩ := List.mem_map.mp hk'
  have hgroup := p'.grouped e' he'
  rw [heq, p.grouped e he] at hgroup
  exact hgroups hgroup

end Sheet

/-! ## Taking what is there -/

/-- Take a setting of a group. -/
def Group.take : Group → Settings → Key × Toml.Node → Option Settings
  | machine => takeMachine
  | log => takeLog

theorem take_entry (s : Settings) (e : Entry) :
    e.setting.group.take s (Toml.entryNode (e.setting.key, e.value)) = some (e.set s) := by
  cases e <;> rfl

theorem takeAll_entries {g : Group} {entries : List Entry} (h : ∀ e ∈ entries, e.setting.group = g) (s : Settings) :
    takeAll g.take s ((entries.map fun e => (e.setting.key, e.value)).map Toml.entryNode) =
      some (entries.foldl Entry.set s) := by
  induction entries generalizing s with
  | nil => rfl
  | cons e entries ih =>
    have htake := take_entry s e
    rw [h e List.mem_cons_self] at htake
    simp only [List.map_cons, takeAll, htake, Option.bind_some, List.foldl_cons]
    exact ih (fun e he => h e (List.mem_cons_of_mem _ he)) (e.set s)

theorem takeGroup_part (s : Settings) (p : Part) : takeGroup s p.block.node = some (p.entries.foldl Entry.set s) := by
  have hgroup : takeGroup s p.block.node = takeAll p.group.take s (p.block.entries.map Toml.entryNode) := by
    simp only [Block.node, Part.block]
    cases p.group <;> rfl
  rw [hgroup]
  exact takeAll_entries p.grouped s

theorem takeAll_parts (parts : List Part) (s : Settings) :
    takeAll takeGroup s ((parts.map Part.block).map Block.node) =
      some ((parts.flatMap Part.entries).foldl Entry.set s) := by
  induction parts generalizing s with
  | nil => rfl
  | cons p parts ih =>
    simp only [List.map_cons, takeAll, takeGroup_part, Option.bind_some, List.flatMap_cons, List.foldl_append]
    exact ih _

/-- The settings that a sheet gives, when nothing is wrong with them. -/
def Sheet.settings (sheet : Sheet) : Settings := sheet.entries.foldl Entry.set default

theorem decode?_sheet {sheet : Sheet} {text : List Char} (h : Layout true sheet.statements text) :
    decode? (Text.Utf8.encodeAll text) = some sheet.settings := by
  have hnames : ((sheet.parts.map Part.block).map Block.name).Nodup := by
    have hmap := sheet.distinct.map name_injective
    simpa [Function.comp_def, Part.block] using hmap
  rw [decode?, Toml.document?_of_layout hnames h, Option.bind_some, takeAll_parts]
  rfl

/-! ## What a sheet gives -/

section Given

variable {s s' : Settings} {k : Setting} {e : Entry} {entries : List Entry}

theorem isIn_set (s : Settings) (e : Entry) : e.IsIn (e.set s) := by
  cases e <;> rfl

theorem agree_set (h : e.setting ≠ k) (s : Settings) : k.Agree (e.set s) s := by
  cases e <;> cases k <;> first | rfl | exact absurd rfl h

theorem isIn_of_agree (h : e.setting.Agree s s') (hin : e.IsIn s') : e.IsIn s := by
  cases e <;> exact Eq.trans h hin

theorem Setting.Agree.trans {s'' : Settings} (h : k.Agree s s') (h' : k.Agree s' s'') : k.Agree s s'' := by
  cases k <;> exact Eq.trans h h'

/-- What no entry sets stays. -/
theorem agree_foldl (h : ∀ e ∈ entries, e.setting ≠ k) (s : Settings) : k.Agree (entries.foldl Entry.set s) s := by
  induction entries generalizing s with
  | nil => cases k <;> rfl
  | cons e entries ih =>
    have hrest := ih (fun e' he' => h e' (List.mem_cons_of_mem e he')) (e.set s)
    exact hrest.trans (agree_set (h e List.mem_cons_self) s)

/-- What one entry sets stays as well, since no other entry sets it again. -/
theorem isIn_foldl (h : (entries.map Entry.setting).Nodup) (he : e ∈ entries) (s : Settings) :
    e.IsIn (entries.foldl Entry.set s) := by
  induction entries generalizing s with
  | nil => cases he
  | cons e' entries ih =>
    rw [List.map_cons, List.nodup_cons] at h
    rcases List.mem_cons.mp he with rfl | he
    · have hother : ∀ e' ∈ entries, e'.setting ≠ e.setting := fun e' he' heq =>
        h.1 (heq ▸ List.mem_map_of_mem he')
      exact isIn_of_agree (agree_foldl hother (e.set s)) (isIn_set s e)
    · exact ih h.2 he (e'.set s)

theorem set_comm {e' : Entry} (h : e.setting ≠ e'.setting) (s : Settings) : e'.set (e.set s) = e.set (e'.set s) := by
  cases e <;> cases e' <;> first | rfl | exact absurd rfl h

end Given

namespace Sheet

theorem isIn_settings {sheet : Sheet} {e : Entry} (he : e ∈ sheet.entries) : e.IsIn sheet.settings :=
  isIn_foldl sheet.nodup_settings he default

theorem agree_settings {sheet : Sheet} {k : Setting} (hk : ∀ e ∈ sheet.entries, e.setting ≠ k) :
    k.Agree sheet.settings default :=
  agree_foldl hk default

/-- The capacity is one that is given, or else the default. -/
theorem capacity_cases (sheet : Sheet) :
    (∃ n, .symbolCapacity n ∈ sheet.entries ∧ sheet.settings.symbolCapacity = n) ∨
      sheet.settings.symbolCapacity = default.symbolCapacity := by
  by_cases hsome : ∃ n, .symbolCapacity n ∈ sheet.entries
  · obtain ⟨n, hn⟩ := hsome
    exact .inl ⟨n, hn, isIn_settings hn⟩
  · refine .inr (agree_settings (k := .symbolCapacity) fun e he heq => ?_)
    cases e with
    | symbolCapacity n => exact hsome ⟨n, he⟩
    | trace | verbosity | logFile => cases heq

/-- The order in which a sheet says what it says does not matter. -/
theorem settings_congr {sheet sheet' : Sheet} (h : ∀ e, e ∈ sheet'.entries ↔ e ∈ sheet.entries) :
    sheet'.settings = sheet.settings := by
  have hperm : sheet'.entries.Perm sheet.entries :=
    (List.perm_ext_iff_of_nodup (.of_map _ sheet'.nodup_settings) (.of_map _ sheet.nodup_settings)).mpr h
  refine hperm.foldl_eq' ?_ default
  intro e he e' he' s
  by_cases heq : e = e'
  · rw [heq]
  · exact set_comm (fun hsetting => heq (List.inj_on_of_nodup_map sheet'.nodup_settings he he' hsetting)) s

end Sheet

/-- The settings of a readable sheet, but for the check of the capacity. -/
theorem load_of_layout {fs : FileSystem} {dir : Bytes} {sheet : Sheet} {text : List Char}
    (htext : Layout true sheet.statements text)
    (hread : fs.read (Path.join dir fileName) = .ok (Text.Utf8.encodeAll text)) :
    load fs dir =
      if sheet.settings.symbolCapacity < 0 then .error (.negativeCapacity (Path.join dir fileName))
      else .ok { sheet.settings with dir := (Path.absolute fs.current dir).text } := by
  simp only [load, hread, decode?_sheet htext]

/-- Machines always get room for names, and the room that is asked for when it is some. -/
theorem capacity_of_options (s : Settings) :
    0 < s.options.symbolCapacity ∧ (0 < s.symbolCapacity → s.options.symbolCapacity = s.symbolCapacity.toInt) ∧
      (¬ 0 < s.symbolCapacity → s.options.symbolCapacity = Options.default.symbolCapacity) := by
  by_cases hs : 0 < s.symbolCapacity
  · have hpos : 0 < s.symbolCapacity.toInt := by simpa [Int64.lt_iff_toInt_lt] using hs
    simp [options, hs, hpos]
  · simp [options, hs, Options.default]

/-- **Settings from a sheet.** Let the file of a directory be a sheet, laid out in any way. If the sheet gives a
negative capacity, nothing is loaded. Otherwise settings are loaded: they have every value that the sheet
gives and the default of everything that it does not give, and a machine made with them has a positive
capacity, which is the one given when that is positive and the default when it is zero or none is given,
and traces as the settings say. Another sheet that says the same in another order loads to the same. -/
theorem load_sheet (fs : FileSystem) (dir : Bytes) (sheet : Sheet) {text : List Char}
    (htext : Layout true sheet.statements text)
    (hread : fs.read (Path.join dir fileName) = .ok (Text.Utf8.encodeAll text)) :
    ((∃ n, .symbolCapacity n ∈ sheet.entries ∧ n < 0) →
      load fs dir = .error (.negativeCapacity (Path.join dir fileName))) ∧
    ((∀ n, .symbolCapacity n ∈ sheet.entries → 0 ≤ n) →
      ∃ s, load fs dir = .ok s ∧ (∀ e ∈ sheet.entries, e.IsIn s) ∧
        (∀ k, (∀ e ∈ sheet.entries, e.setting ≠ k) → k.Agree s default) ∧
        0 < s.options.symbolCapacity ∧
        (∀ n, .symbolCapacity n ∈ sheet.entries → 0 < n → s.options.symbolCapacity = n.toInt) ∧
        ((∀ n, .symbolCapacity n ∈ sheet.entries → ¬ 0 < n) →
          s.options.symbolCapacity = Options.default.symbolCapacity) ∧
        s.options.trace = s.trace) ∧
    ∀ (fs' : FileSystem) (sheet' : Sheet) (text' : List Char), Layout true sheet'.statements text' →
      (∀ e, e ∈ sheet'.entries ↔ e ∈ sheet.entries) → fs'.current = fs.current →
      fs'.read (Path.join dir fileName) = .ok (Text.Utf8.encodeAll text') → load fs' dir = load fs dir := by
  have hload := load_of_layout htext hread
  refine ⟨?_, ?_, ?_⟩
  · intro hnegative
    obtain ⟨n, hn, hneg⟩ := hnegative
    have heq : sheet.settings.symbolCapacity = n := Sheet.isIn_settings hn
    rw [hload, if_pos (heq ▸ hneg)]
  · intro hnonneg
    have hnot : ¬ sheet.settings.symbolCapacity < 0 := by
      rcases sheet.capacity_cases with ⟨n, hn, heq⟩ | heq
      · rw [heq]
        exact Int64.not_lt.mpr (hnonneg n hn)
      · rw [heq]
        decide
    rw [hload, if_neg hnot]
    obtain ⟨hpos, hroom, hdefault⟩ := capacity_of_options
      { sheet.settings with dir := (Path.absolute fs.current dir).text }
    -- The directory is nothing that a sheet sets.
    refine ⟨_, rfl, fun e he => ?_, fun k hk => ?_, hpos, fun n hn hlt => ?_, fun hno => ?_, rfl⟩
    · have hin := Sheet.isIn_settings he
      cases e <;> exact hin
    · have hagree := Sheet.agree_settings hk
      cases k <;> exact hagree
    · obtain rfl : sheet.settings.symbolCapacity = n := Sheet.isIn_settings hn
      exact hroom hlt
    · rcases sheet.capacity_cases with ⟨n, hn, heq⟩ | heq
      · exact hdefault fun hlt => hno n hn (heq ▸ hlt)
      · rw [hroom (heq ▸ by decide)]
        show sheet.settings.symbolCapacity.toInt = _
        rw [heq]
        rfl
  · intro fs' sheet' text' htext' hsame hcurrent hread'
    rw [hload, load_of_layout htext' hread', Sheet.settings_congr hsame, hcurrent]

/-- A sheet that gives the path of the log first, and then a capacity of zero. -/
def logFirst : Sheet where
  parts :=
    [{ group := .log
       entries := [.logFile (.ofQuotable "a b".toList rfl)]
       grouped := by simp [Entry.setting, Setting.group]
       distinct := by decide },
     { group := .machine
       entries := [.symbolCapacity 0]
       grouped := by simp [Entry.setting, Setting.group]
       distinct := by decide }]
  distinct := by decide

def logFirstText : List Char := "[log] # only a path\r\npath=\"a b\"\n\n[ runtime ]\nsymbol-capacity = 0".toList

theorem layout_logFirst : Layout true logFirst.statements logFirstText := by
  have hnone : Toml.Blanks [] := fun _ h => absurd h List.not_mem_nil
  have hone : Toml.Blanks [' '] := List.all_eq_true.mp rfl
  have hremark : Toml.Remark " only a path".toList := fun c hc =>
    ((PlainText.ofQuotable " only a path".toList rfl).property c hc).2.2
  have hzero : Toml.Spells (.integer 0) ['0'] := by
    have hspells := Toml.Spells.integer 0
    rwa [show Toml.numeral 0 = ['0'] by decide +kernel] at hspells
  have hbare : ∀ key : Key, key ≠ [] → key.all Toml.isKeyChar = true → Toml.IsBareKey key := fun key hne hall =>
    ⟨hne, List.all_eq_true.mp hall⟩
  have hcapacity := Layout.statement (.assign (hbare Setting.symbolCapacity.key (by decide) rfl) hone hone hzero) .done
  have hmachine := Layout.statement (.table (hbare Group.machine.name (by decide) rfl) hone hone)
    (.lineBreak .feed hcapacity)
  have hpath := Layout.statement (.assign (hbare Setting.logFile.key (by decide) rfl) hnone hnone
    (.string (.ofQuotable "a b".toList rfl))) (.lineBreak .feed (.lineBreak .feed hmachine))
  exact .statement (.table (hbare Group.log.name (by decide) rfl) hnone hnone)
    (.blank (c := ' ') rfl (.comment hremark .returnFeed hpath))

/-- A file system with that sheet, and nothing else, in the root. -/
def logFirstFiles : FileSystem where
  root := .dir .all [(fileName, .file .all (Text.Utf8.encodeAll logFirstText))]
  current := []

/-- The path comes in, the capacity of zero gives place to the default, and the rest is as it is without a file. -/
theorem load_sheet_logFirst :
    ∃ s, load logFirstFiles (Bytes.ofString "/") = .ok s ∧ s.logFile = Bytes.ofString "a b" ∧ s.symbolCapacity = 0 ∧
      s.trace = false ∧ s.verbosity = 1 ∧ s.options = Options.default := by
  have hread : logFirstFiles.read (Path.join (Bytes.ofString "/") fileName) =
      .ok (Text.Utf8.encodeAll logFirstText) := by decide +kernel
  have hentries : logFirst.entries = [.logFile (.ofQuotable "a b".toList rfl), .symbolCapacity 0] := rfl
  have hzero : ∀ n, .symbolCapacity n ∈ logFirst.entries → n = 0 := by
    intro n hn
    simpa [hentries] using hn
  obtain ⟨s, hload, hgiven, hkept, -, -, hdefault, htrace⟩ :=
    (load_sheet logFirstFiles (Bytes.ofString "/") logFirst layout_logFirst hread).2.1
      fun n hn => by rw [hzero n hn]; decide
  have hfalse : s.trace = false := hkept .trace (by simp [hentries, Entry.setting])
  have hroom := hdefault fun n hn => by rw [hzero n hn]; decide
  have hfile : s.logFile = Bytes.ofString "a b" :=
    hgiven (.logFile (.ofQuotable "a b".toList rfl)) (by simp [hentries])
  refine ⟨s, hload, hfile, hgiven (.symbolCapacity 0) (by simp [hentries]), hfalse,
    hkept .verbosity (by simp [hentries, Entry.setting]), ?_⟩
  calc s.options = ⟨s.options.symbolCapacity, s.options.trace⟩ := rfl
    _ = Options.default := by rw [hroom, htrace, hfalse]; rfl

end Dispatch.Settings
