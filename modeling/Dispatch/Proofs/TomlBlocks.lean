/-
Documents that are made of blocks: headers of one key, each with assignments of scalars below it. As long as no
header comes twice and no key twice below a header, every statement adds one node at the end of what is written
last, so the document is the list of the blocks, in their order (`document?_of_layout`).
-/
import Dispatch.Toml.Document
import Dispatch.Proofs.TomlReading

namespace Dispatch.Toml

/-- A header and the assignments below it. -/
structure Block where
  name : Key
  entries : List (Key × Scalar)
  distinct : (entries.map Prod.fst).Nodup

/-- The assignment of a scalar. -/
def entryStatement (entry : Key × Scalar) : Statement := .assign [entry.1] (.scalar entry.2)

/-- What an assigned scalar is in its table. -/
def entryNode (entry : Key × Scalar) : Key × Node := (entry.1, .value (.scalar entry.2))

def Block.statements (b : Block) : List Statement := .table [b.name] :: b.entries.map entryStatement

/-- What a block is in the document. -/
def Block.node (b : Block) : Key × Node := (b.name, .table (b.entries.map entryNode))

/-! ## Tables -/

section Tables

variable {key : Key} {t : Table}

theorem lookup_eq_none (h : key ∉ t.map Prod.fst) : t.lookup key = none := by
  rw [List.lookup_eq_none_iff]
  intro entry hentry
  have hne : key ≠ entry.1 := fun heq => h (heq ▸ List.mem_map_of_mem hentry)
  simpa using hne

theorem lookup_last (h : key ∉ t.map Prod.fst) (node : Node) : (t ++ [(key, node)]).lookup key = some node := by
  simp [List.lookup_append, lookup_eq_none h]

/-- What stands before the place of a key stays. -/
theorem set_append (h : key ∉ t.map Prod.fst) (node : Node) (t' : Table) :
    Table.set key node (t ++ t') = t ++ Table.set key node t' := by
  induction t with
  | nil => rfl
  | cons entry t ih =>
    simp only [List.map_cons, List.mem_cons, not_or] at h
    simp only [List.cons_append, Table.set, if_neg (Ne.symm h.1), ih h.2]

theorem set_new (h : key ∉ t.map Prod.fst) (node : Node) : Table.set key node t = t ++ [(key, node)] := by
  have hset := set_append h node []
  rwa [List.append_nil] at hset

theorem set_last (h : key ∉ t.map Prod.fst) (node node' : Node) :
    Table.set key node (t ++ [(key, node')]) = t ++ [(key, node)] := by
  rw [set_append h]
  simp [Table.set]

end Tables

/-! ## Drafts -/

namespace Draft

variable {d : Draft} {name : Key} {before t : Table}

/-- The header of a table that is new. -/
theorem write_table (h : name ∉ d.root.map Prod.fst) (context : KeyPath) :
    ∃ d' : Draft, d.write context (.table [name]) = some (d', [name]) ∧ d'.root = d.root ++ [(name, .table [])] := by
  have hdefine : d.define [] name (.table []) = some { d with root := d.root ++ [(name, .table [])] } := by
    simp only [define, alter, Table.at?, Table.alter, lookup_eq_none h, set_new h, Option.map_some]
  have henter : d.enter [name] false = some { d with root := d.root ++ [(name, .table [])] } := hdefine
  exact ⟨_, by rw [write, henter]; rfl, rfl⟩

/-- The assignment of a scalar to a key that is new below the last header. -/
theorem write_entry {entry : Key × Scalar} (hroot : d.root = before ++ [(name, .table t)])
    (hname : name ∉ before.map Prod.fst) (hkey : entry.1 ∉ t.map Prod.fst) :
    ∃ d' : Draft, d.write [name] (entryStatement entry) = some (d', [name]) ∧
      d'.root = before ++ [(name, .table (t ++ [entryNode entry]))] := by
  have hat : Table.at? [name] d.root = some t := by
    simp only [hroot, Table.at?, lookup_last hname]
  have halter : Table.alter (Table.set entry.1 (.value (.scalar entry.2))) [name] d.root =
      some (before ++ [(name, .table (t ++ [entryNode entry]))]) := by
    simp only [hroot, Table.alter, lookup_last hname, set_new hkey, Option.map_some, set_last hname]
    rfl
  have hdefine : d.define [name] entry.1 (.value (.scalar entry.2)) =
      some { d with root := before ++ [(name, .table (t ++ [entryNode entry]))] } := by
    simp only [define, hat, lookup_eq_none hkey, alter, halter, Option.map_some]
  have hassign : d.assign [name] [entry.1] (.scalar entry.2) =
      some (noteArray { d with root := before ++ [(name, .table (t ++ [entryNode entry]))] }
        (noted [name] entry.1) false) := by
    simp [assign, fill, pass, place, hdefine, Table.setPath, isArray]
  exact ⟨_, by rw [entryStatement, write, hassign]; rfl, rfl⟩

/-- Assignments in turn. -/
theorem writeAll_entries {entries : List (Key × Scalar)} (hroot : d.root = before ++ [(name, .table t)])
    (hname : name ∉ before.map Prod.fst) (hkeys : (t.map Prod.fst ++ entries.map Prod.fst).Nodup) :
    ∃ d' : Draft, (∀ ss, d.writeAll [name] (entries.map entryStatement ++ ss) = d'.writeAll [name] ss) ∧
      d'.root = before ++ [(name, .table (t ++ entries.map entryNode))] := by
  induction entries generalizing d t with
  | nil => exact ⟨d, fun _ => rfl, by simpa using hroot⟩
  | cons entry entries ih =>
    have hkey : entry.1 ∉ t.map Prod.fst := fun hmem =>
      (List.nodup_append.mp hkeys).2.2 _ hmem _ List.mem_cons_self rfl
    obtain ⟨d₁, hwrite, hroot₁⟩ := write_entry hroot hname hkey
    have hkeys₁ : ((t ++ [entryNode entry]).map Prod.fst ++ entries.map Prod.fst).Nodup := by
      simpa [entryNode] using hkeys
    obtain ⟨d₂, hrest, hroot₂⟩ := ih hroot₁ hkeys₁
    refine ⟨d₂, fun ss => ?_, by simpa using hroot₂⟩
    rw [← hrest ss, List.map_cons, List.cons_append, writeAll, hwrite, Option.bind_some]

theorem writeAll_block {b : Block} (h : b.name ∉ d.root.map Prod.fst) (context : KeyPath) :
    ∃ d' : Draft, (∀ ss, d.writeAll context (b.statements ++ ss) = d'.writeAll [b.name] ss) ∧
      d'.root = d.root ++ [b.node] := by
  obtain ⟨d₁, hwrite, hroot₁⟩ := write_table h context
  obtain ⟨d₂, hrest, hroot₂⟩ := writeAll_entries hroot₁ h (by simpa using b.distinct)
  refine ⟨d₂, fun ss => ?_, hroot₂⟩
  rw [← hrest ss, Block.statements, List.cons_append, writeAll, hwrite, Option.bind_some]

/-- Blocks in turn. -/
theorem writeAll_blocks {blocks : List Block} (h : (d.root.map Prod.fst ++ blocks.map Block.name).Nodup)
    (context : KeyPath) :
    ∃ d' : Draft, d.writeAll context (blocks.flatMap Block.statements) = some d' ∧
      d'.root = d.root ++ blocks.map Block.node := by
  induction blocks generalizing d context with
  | nil => exact ⟨d, rfl, by simp⟩
  | cons b blocks ih =>
    have hname : b.name ∉ d.root.map Prod.fst := fun hmem =>
      (List.nodup_append.mp h).2.2 _ hmem _ List.mem_cons_self rfl
    obtain ⟨d₁, hwrite, hroot₁⟩ := writeAll_block hname context
    have hnames : (d₁.root.map Prod.fst ++ blocks.map Block.name).Nodup := by
      simpa [hroot₁, Block.node] using h
    obtain ⟨d₂, hrest, hroot₂⟩ := ih hnames [b.name]
    refine ⟨d₂, ?_, by simpa [hroot₁] using hroot₂⟩
    rw [List.flatMap_cons, hwrite, hrest]

end Draft

/-- **The document of a text of blocks.** -/
theorem document?_of_layout {blocks : List Block} {text : List Char} (h : (blocks.map Block.name).Nodup)
    (htext : Layout true (blocks.flatMap Block.statements) text) :
    document? (Text.Utf8.encodeAll text) = some (blocks.map Block.node) := by
  obtain ⟨d, hwrite, hroot⟩ := Draft.writeAll_blocks (d := .empty) (by simpa [Draft.empty] using h) []
  simp only [document?, source?_of_layout htext, statements_of_layout htext, Option.bind_eq_bind, Option.bind_some,
    hwrite, hroot]
  rfl

end Dispatch.Toml
