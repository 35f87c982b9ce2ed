/-
# Sessions with a host

A host sends requests: it resets, steps and runs the computer, drives its
interrupt inputs, writes registers and flags, asks for listings, and uses and
arranges the bus. Each request is answered (`Computer.answer`), and a session is a
list of them (`Computer.session`). What a theorem leaves out it says by a property
of requests, such as `Request.sparesBus`.

Computers with the same processor answer every session alike if their buses read
alike and their steps are answered alike (`Computer.session_alike`). Steps are,
if no host can tell the buses apart: they remember the same fault, and stay
related through writes and through transactions (`Bus.Twins`,
`Computer.session_twins`).

Key definitions: `Setter`, `Bus.Arrangement`, `Request`, `Reply`,
`Computer.answer`, `Computer.session`, `Computer.after`, `Computer.Twin`,
`Bus.Twins`.
Key theorems: `Computer.runFrom_lockstep`, `Computer.after_keeps`,
`Computer.session_lockstep`, `Computer.session_alike`, `Computer.session_twins`,
`Computer.session_keeps`.
-/
import Cpu6502.Cartridge
import Cpu6502.Listing
import Cpu6502.Proofs.Journal

namespace Cpu6502

/-! ### Requests and replies -/

/-- A host's write to a register, to P or to flags of P. -/
inductive Setter
  | a (v : UInt8)
  | x (v : UInt8)
  | y (v : UInt8)
  | sp (v : UInt8)
  | pc (v : Address)
  | status (v : UInt8)
  | flags (mask : UInt8) (on : Bool)
  /-- Changes the register file in any other way. -/
  | raw (f : Registers → Registers)

/-- The registers after the write. -/
def Setter.apply (r : Registers) : Setter → Registers
  | a v => r.setA v
  | x v => r.setX v
  | y v => r.setY v
  | sp v => r.setSp v
  | pc v => r.setPc v
  | status v => r.setStatus v
  | flags mask on => r.assign mask on
  | raw f => f r

/-- What a host does to a bus, past the processor and its write protection. -/
inductive Bus.Arrangement
  | poke (a : Address) (v : UInt8)
  | load (base : Address) (bytes : List UInt8)
  | setMapping (mapping : Mapping)
  | attach (cartridge : Cartridge)
  /-- A new bus takes the place of this one. -/
  | renew (mapping : Mapping)
  /-- Changes the bus in any other way. -/
  | raw (f : Bus → Bus)

/-- The bus after it. -/
def Bus.arrange (bus : Bus) : Arrangement → Bus
  | .poke a v => bus.poke a v
  | .load base bytes => bus.load base bytes
  | .setMapping mapping => bus.setMapping mapping
  | .attach cartridge => cartridge.install bus
  | .renew mapping => .withMapping mapping
  | .raw f => f bus

/-- What a host can ask for. -/
inductive Request
  | reset
  | step
  | run (limit : Nat)
  | triggerNmi
  | setIrqLine (asserted : Bool)
  | set (setter : Setter)
  | traceLine
  | disassemble (pc : Address)
  /-- Reads, looks or writes as a program would. -/
  | access (op : Bus.Operation)
  | arrange (arrangement : Bus.Arrangement)

/-- What the host is told. -/
inductive Reply
  | done
  | stepped (answer : Except HaltReason Bool)
  | ran (answer : Except HaltReason Nat)
  | text (line : String)
  | listing (text : String) (length : UInt8)
  | accessed (answer : Bus.Answer)

namespace Request

/-- The request writes registers past the setters of single ones. -/
def isRawSet : Request → Bool
  | set (.raw _) => true
  | _ => false

/-- The request changes a bus past what a host is given for that. -/
def isRawArrange : Request → Bool
  | arrange (.raw _) => true
  | _ => false

/-- The request writes flags, as opposed to the whole of P. -/
def setsFlags : Request → Bool
  | set (.flags ..) | set (.raw _) => true
  | _ => false

/-- The request resets the processor. -/
def isReset : Request → Bool
  | reset => true
  | _ => false

/-- The request resets a processor that is in this phase, by itself or before
its first step. -/
def resets (phase : Phase) : Request → Bool
  | reset => true
  | step => phase == .reset
  | run limit => phase == .reset && limit != 0
  | _ => false

/-- The request leaves it to programs to change the bus. -/
def sparesBus : Request → Bool
  | arrange _ => false
  | _ => true

end Request

namespace Computer

/-- One request: the reply, and the computer after it. -/
def answer (c : Computer) : Request → Reply × Computer
  | .reset => (.done, c.reset)
  | .step => (.stepped c.step.1, c.step.2)
  | .run limit => (.ran (c.run limit).1, (c.run limit).2)
  | .triggerNmi => (.done, { c with cpu := c.cpu.triggerNmi })
  | .setIrqLine asserted => (.done, { c with cpu := c.cpu.setIrqLine asserted })
  | .set setter => (.done, { c with cpu := c.cpu.updateRegs setter.apply })
  | .traceLine => (.text (Cpu6502.traceLine ⟨c.cpu.regs, c.bus⟩), c)
  | .disassemble pc =>
    (.listing (Cpu6502.disassemble c.bus pc).1 (Cpu6502.disassemble c.bus pc).2, c)
  | .access op => (.accessed (c.bus.perform op).1, { c with bus := (c.bus.perform op).2 })
  | .arrange arrangement => (.done, { c with bus := c.bus.arrange arrangement })

/-- The requests in order: the replies, and the computer after the last. -/
def session (c : Computer) : List Request → List Reply × Computer
  | [] => ([], c)
  | request :: requests =>
    let first := c.answer request
    let rest := first.2.session requests
    (first.1 :: rest.1, rest.2)

/-- The computer after these requests. -/
def after (c : Computer) (requests : List Request) : Computer := (c.session requests).2

theorem after_append (c : Computer) (first second : List Request) :
    c.after (first ++ second) = (c.after first).after second := by
  induction first generalizing c with
  | nil => rfl
  | cons request requests ih => exact ih (c.answer request).2

/-! ### Runs -/

theorem runFrom_succ (count limit : Nat) (c : Computer) : runFrom count (limit + 1) c =
    match c.step.1 with
    | .error reason => (.error reason, c.step.2)
    | .ok false => (.ok count, c.step.2)
    | .ok true => runFrom (count + 1) limit c.step.2 := by
  rw [runFrom]
  rcases hstep : c.step with ⟨_ | _ | _, c'⟩ <;> rfl

/-- A run of at least one step begins with the reset that its first step
implies. -/
theorem runFrom_started (count limit : Nat) (c : Computer) :
    runFrom count (limit + 1) c = runFrom count (limit + 1) c.started := by
  rw [runFrom_succ, runFrom_succ, step_started]

/-- Computers whose steps are answered alike, and stay related, run alike. -/
theorem runFrom_lockstep {R : Computer → Computer → Prop}
    (hstep : ∀ {c d : Computer}, R c d → c.step.1 = d.step.1 ∧ R c.step.2 d.step.2)
    {c d : Computer} (h : R c d) (count limit : Nat) :
    (runFrom count limit c).1 = (runFrom count limit d).1 ∧
      R (runFrom count limit c).2 (runFrom count limit d).2 := by
  induction limit generalizing count c d with
  | zero => exact ⟨rfl, h⟩
  | succ limit ih =>
    obtain ⟨hanswer, hnext⟩ := hstep h
    rw [runFrom_succ, runFrom_succ, hanswer]
    rcases d.step.1 with reason | _ | _
    · exact ⟨rfl, hnext⟩
    · exact ⟨rfl, hnext⟩
    · exact ih hnext (count + 1)

/-- What every step keeps, a run keeps. -/
theorem runFrom_keeps {P : Computer → Prop} (hstep : ∀ {c : Computer}, P c → P c.step.2)
    {c : Computer} (h : P c) (count limit : Nat) : P (runFrom count limit c).2 := by
  have hsame {c d : Computer} (hcd : c = d ∧ P d) :
      c.step.1 = d.step.1 ∧ c.step.2 = d.step.2 ∧ P d.step.2 := by
    obtain ⟨rfl, hc⟩ := hcd
    exact ⟨rfl, rfl, hstep hc⟩
  exact (runFrom_lockstep hsame ⟨rfl, h⟩ count limit).2.2

theorem run_of_isHalted {c : Computer} (h : c.cpu.isHalted = true) (limit : Nat) :
    c.run limit = (.ok 0, c) := by
  cases limit with
  | zero => rfl
  | succ limit => rw [run, runFrom_succ, step_of_isHalted h]

/-- A halted processor stays so, for the same reason, until it is reset. -/
theorem answer_of_isHalted {c : Computer} (h : c.cpu.isHalted = true) {request : Request}
    (hr : request.isReset = false) :
    (c.answer request).2.cpu.isHalted = true ∧
      (c.answer request).2.cpu.haltReason = c.cpu.haltReason := by
  cases request with
  | reset => cases hr
  | step =>
    rw [answer, step_of_isHalted h]
    exact ⟨h, rfl⟩
  | run limit =>
    rw [answer, run_of_isHalted h]
    exact ⟨h, rfl⟩
  | triggerNmi | setIrqLine asserted | set setter | traceLine | disassemble pc | access op
  | arrange arrangement => exact ⟨h, rfl⟩

/-- A run of at least one step leaves the first phase. -/
theorem runFrom_phase (count limit : Nat) (c : Computer) :
    (runFrom count (limit + 1) c).2.cpu.phase ≠ .reset := by
  rw [runFrom_started]
  exact runFrom_keeps (P := fun d => d.cpu.phase ≠ .reset) (fun {d} _ => d.step_phase)
    c.started_phase count (limit + 1)

/-- No request changes the configuration. -/
theorem answer_config (c : Computer) (request : Request) :
    (c.answer request).2.cpu.config = c.cpu.config := by
  cases request with
  | step => exact c.step_config
  | run limit =>
    exact runFrom_keeps (P := fun d => d.cpu.config = c.cpu.config)
      (fun {d} hd => d.step_config.trans hd) rfl 0 limit
  | reset | triggerNmi | setIrqLine asserted | set setter | traceLine | disassemble pc | access op
  | arrange arrangement => rfl

/-- What every allowed request keeps, a session of them keeps. -/
theorem after_keeps {P : Computer → Prop} {allowed : Request → Prop}
    (hanswer : ∀ {c : Computer} {request : Request}, P c → allowed request →
      P (c.answer request).2)
    {c : Computer} (h : P c) {requests : List Request}
    (hr : ∀ request ∈ requests, allowed request) : P (c.after requests) := by
  induction requests generalizing c with
  | nil => exact h
  | cons request requests ih =>
    obtain ⟨hfirst, hrest⟩ := List.forall_mem_cons.mp hr
    exact ih (hanswer h hfirst) hrest

/-- Requests that are answered alike make a session that is answered alike. -/
theorem session_lockstep {R : Computer → Computer → Prop} {allowed : Request → Prop}
    (hanswer : ∀ {c d : Computer} {request : Request}, R c d → allowed request →
      (c.answer request).1 = (d.answer request).1 ∧ R (c.answer request).2 (d.answer request).2)
    {c d : Computer} (h : R c d) {requests : List Request}
    (hr : ∀ request ∈ requests, allowed request) :
    (c.session requests).1 = (d.session requests).1 ∧
      R (c.session requests).2 (d.session requests).2 := by
  induction requests generalizing c d with
  | nil => exact ⟨rfl, h⟩
  | cons request requests ih =>
    obtain ⟨hfirst, hrest⟩ := List.forall_mem_cons.mp hr
    obtain ⟨hreply, hnext⟩ := hanswer h hfirst
    obtain ⟨hreplies, hlast⟩ := ih hnext hrest
    exact ⟨by simp only [session, hreply, hreplies], hlast⟩

end Computer

/-! ### Texts about buses that read alike -/

section
variable {R : Bus → Bus → Prop} (hR : Bus.Alike R)
include hR

theorem Opcode.text_alike {b e : Bus} (h : R b e) (op : Opcode) (pc : Address) :
    op.text b pc = op.text e pc := by
  simp only [text, Bus.readWord_alike hR h]

theorem disassemble_alike {b e : Bus} (h : R b e) (pc : Address) :
    disassemble b pc = disassemble e pc := by
  simp only [disassemble, hR.read h, Opcode.text_alike hR h]

theorem remark_alike {m n : Machine} (h : m.Alike R n) (op : Opcode) : remark op m = remark op n := by
  simp only [remark, h.regs, hR.read h.bus, Bus.readWord_alike hR h.bus, Bus.samePageWord,
    Bus.zeroPageWord]

theorem traceLine_alike {m n : Machine} (h : m.Alike R n) : traceLine m = traceLine n := by
  have hbytes (length : UInt8) : instructionBytes m.bus n.regs.pc length =
      instructionBytes n.bus n.regs.pc length := by
    simp only [instructionBytes, hR.read h.bus]
  simp only [traceLine, h.regs, hR.read h.bus, Opcode.text_alike hR h.bus, remark_alike hR h, hbytes]

end

/-! ### Computers that answer alike -/

/-- The same processor on related buses. -/
structure Computer.Twin (R : Bus → Bus → Prop) (c d : Computer) : Prop where
  cpu : c.cpu = d.cpu
  bus : R c.bus d.bus

namespace Computer

section
variable {R : Bus → Bus → Prop} (hR : Bus.Alike R) {c d : Computer}
include hR

theorem reset_alike (h : c.Twin R d) : c.reset.Twin R d.reset := by
  refine ⟨?_, h.bus⟩
  simp only [reset, h.cpu, Bus.readWord_alike hR h.bus]

variable (hstep : ∀ {c d : Computer}, c.Twin R d →
  c.step.1 = d.step.1 ∧ c.step.2.Twin R d.step.2)
include hstep

/-- If steps are answered alike, so is every request. -/
theorem answer_alike (h : c.Twin R d) {request : Request} (hs : request.sparesBus = true) :
    (c.answer request).1 = (d.answer request).1 ∧
      (c.answer request).2.Twin R (d.answer request).2 := by
  cases request with
  | reset => exact ⟨rfl, reset_alike hR h⟩
  | step =>
    obtain ⟨hanswer, hnext⟩ := hstep h
    exact ⟨congrArg Reply.stepped hanswer, hnext⟩
  | run limit =>
    obtain ⟨hanswer, hrun⟩ := runFrom_lockstep hstep h 0 limit
    exact ⟨congrArg Reply.ran hanswer, hrun⟩
  | triggerNmi | setIrqLine asserted | set setter =>
    exact ⟨rfl, by simp only [answer, h.cpu], h.bus⟩
  | traceLine =>
    exact ⟨congrArg Reply.text (traceLine_alike hR ⟨congrArg Processor.regs h.cpu, h.bus⟩), h⟩
  | disassemble pc => exact ⟨by simp only [answer, disassemble_alike hR h.bus], h⟩
  | access op =>
    obtain ⟨hanswer, hbus⟩ := Bus.perform_alike hR h.bus op
    exact ⟨congrArg Reply.accessed hanswer, h.cpu, hbus⟩
  | arrange arrangement => cases hs

/-- And so is a whole session, in which the host leaves the bus to programs. -/
theorem session_alike (h : c.Twin R d) {requests : List Request}
    (hs : ∀ request ∈ requests, request.sparesBus = true) :
    (c.session requests).1 = (d.session requests).1 ∧
      (c.session requests).2.Twin R (d.session requests).2 :=
  session_lockstep (fun h hs => answer_alike hR hstep h hs) h hs

end

end Computer

/-- A relation between buses that neither programs nor a host can see. -/
structure Bus.Twins (R : Bus → Bus → Prop) : Prop extends Bus.Alike R where
  fault : ∀ {b d : Bus}, R b d → b.fault = d.fault
  begin : ∀ {b d : Bus}, R b d → R b.begin d.begin
  commit : ∀ {b d : Bus}, R b d → R b.commit d.commit
  rollback : ∀ {b d : Bus}, R b d → R b.rollback d.rollback

section
variable {R : Bus → Bus → Prop} (hR : Bus.Twins R) {c d : Computer}
include hR

namespace Computer

/-- A step's work ends alike, and so the transaction does. -/
theorem advance_twins (h : c.Twin R d) :
    c.advance.1 = d.advance.1 ∧ c.advance.2.Twin R d.advance.2 := by
  have hopen : c.openStep.Twin R d.openStep :=
    ⟨by simp only [openStep, h.cpu], hR.begin h.bus⟩
  have hwork := work_alike hR.toAlike
    (m := ⟨c.openStep.cpu.regs, c.openStep.bus⟩) (n := ⟨d.openStep.cpu.regs, d.openStep.bus⟩)
    ⟨congrArg Processor.regs hopen.cpu, hopen.bus⟩ d.openStep.cpu
  simp only [advance]
  simp only [hopen.cpu] at hwork ⊢
  generalize work d.openStep.cpu ⟨d.openStep.cpu.regs, c.openStep.bus⟩ = x at hwork ⊢
  generalize work d.openStep.cpu ⟨d.openStep.cpu.regs, d.openStep.bus⟩ = y at hwork ⊢
  cases hwork with
  | error reason => exact ⟨rfl, by simp only [conclude, abort, hopen.cpu], hR.rollback hopen.bus⟩
  | @ok m n cycles hm =>
    simp only [conclude, hR.fault hm.bus]
    cases n.bus.fault with
    | none => exact ⟨rfl, by simp only [complete, hopen.cpu, hm.regs], hR.commit hm.bus⟩
    | some fault =>
      exact ⟨by simp only [hopen.cpu], by simp only [abort, hopen.cpu], hR.rollback hm.bus⟩

theorem step_twins (h : c.Twin R d) : c.step.1 = d.step.1 ∧ c.step.2.Twin R d.step.2 := by
  unfold step
  rw [h.cpu]
  cases d.cpu.phase with
  | halted => exact ⟨rfl, h⟩
  | reset => exact advance_twins hR (reset_alike hR.toAlike h)
  | fetching | executing => exact advance_twins hR h

theorem session_twins (h : c.Twin R d) {requests : List Request}
    (hs : ∀ request ∈ requests, request.sparesBus = true) :
    (c.session requests).1 = (d.session requests).1 ∧
      (c.session requests).2.Twin R (d.session requests).2 :=
  session_alike hR.toAlike (step_twins hR) h hs

end Computer

end

/-! ### What a session keeps -/

/-- What writes and transactions keep, as a relation of a bus to itself. -/
theorem Bus.twins_of_keeps {P : Bus → Prop} (hwrite : ∀ b a v, P b → P (b.write a v))
    (hbegin : ∀ b, P b → P b.begin) (hcommit : ∀ b, P b → P b.commit)
    (hrollback : ∀ b, P b → P b.rollback) : Bus.Twins fun b d => b = d ∧ P b where
  toAlike := Bus.alike_of_keeps hwrite
  fault h := by rw [h.1]
  begin h := ⟨by rw [h.1], hbegin _ h.2⟩
  commit h := ⟨by rw [h.1], hcommit _ h.2⟩
  rollback h := ⟨by rw [h.1], hrollback _ h.2⟩

/-- A property of the bus that writes and transactions keep holds throughout a
session in which the host leaves the bus to programs. -/
theorem Computer.session_keeps {P : Bus → Prop} (hP : Bus.Twins fun b d => b = d ∧ P b)
    {c : Computer} (h : P c.bus) {requests : List Request}
    (hr : ∀ request ∈ requests, request.sparesBus = true) : P (c.session requests).2.bus :=
  (session_twins hP ⟨rfl, rfl, h⟩ hr).2.bus.2

end Cpu6502
