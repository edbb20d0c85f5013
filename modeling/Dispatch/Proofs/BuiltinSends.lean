/-
Sends of built-ins, told by their programs. On a machine that has its built-ins, the name of a built-in always
means that built-in to a receiver of its kind; so to know how such a send ends it is enough to look at the one
program that the built-in has for the receiver and the arguments. All that the send leaves behind is a new string,
if the program makes one, and lines in the log.
-/
import Dispatch.Proofs.NameDispatch

namespace Dispatch.Context

variable {c : Context} {b : Builtin} {r : Value} {args : List Value}

/-- The name of a built-in is interned from the start. -/
theorem intern_builtin (h : c.machine.Booted) (b : Builtin) : (c.intern b.name).2 = c := by
  have hsymbols := h.inStep.intern_snd_of_mem (h.interned b b.mem_all)
  simp only [intern, hsymbols]

/-- The name of a built-in, sent to a receiver of its kind, runs the built-in. -/
theorem sendName_builtin (h : c.machine.Booted) (hk : r.kind = b.kind) (args : List Value) :
    ∃ answer log, c.sendName r b.name args =
      ofRun r.kind b.name ((b.method.invoke r args).run answer { c with log }) := by
  have hname : c.machine.symbols.name (c.intern b.name).1 = b.name := by
    have hread := h.inStep.name_intern (h.owned b b.mem_all)
    rwa [h.inStep.intern_snd_of_mem (h.interned b b.mem_all)] at hread
  have hfound : (c.machine.table r.kind).find? (c.intern b.name).1 = some b.method := by
    rw [h.find?_eq, hname, Builtin.find?_eq_some.mpr ⟨hk.symm, rfl⟩]
    rfl
  have hsend : c.sendName r b.name args = c.send r (c.intern b.name).1 args := by
    simp only [sendName, sendSelector, select, intern_builtin h]
  exact ⟨_, _, hsend.trans (sendWithin_found hfound _ args)⟩

theorem sendName_of_done {v : Value} (h : c.machine.Booted) (hk : r.kind = b.kind)
    (hp : b.method.invoke r args = .done v) : ∃ log, c.sendName r b.name args = (.value v, { c with log }) := by
  obtain ⟨answer, log, hsend⟩ := sendName_builtin h hk args
  rw [hp] at hsend
  exact ⟨log, hsend⟩

/-- The string that a send answers with is kept where storage was free. -/
theorem sendName_of_string {bs : Bytes} (h : c.machine.Booted) (hk : r.kind = b.kind)
    (hp : b.method.invoke r args = Builtin.answerString bs) :
    ∃ log, c.sendName r b.name args = (.value (.string c.fresh bs), { c with fresh := c.fresh + 1, log }) := by
  obtain ⟨answer, log, hsend⟩ := sendName_builtin h hk args
  rw [hp] at hsend
  exact ⟨log, hsend⟩

theorem sendName_of_refuse {e : Failure} (h : c.machine.Booted) (hk : r.kind = b.kind) (he : e.dispatch? = none)
    (hp : b.method.invoke r args = Builtin.refuse e) :
    ∃ log, c.sendName r b.name args = (.failure (.dispatch r.kind b.name e) .nil, { c with log }) := by
  obtain ⟨answer, log, hsend⟩ := sendName_builtin h hk args
  have hof : e.ofMethod r.kind b.name = .dispatch r.kind b.name e := by
    simp only [Failure.ofMethod, he]
  rw [hp] at hsend
  refine ⟨log, hsend.trans ?_⟩
  simp only [Builtin.refuse, Program.run, ofRun, hof]

end Dispatch.Context
