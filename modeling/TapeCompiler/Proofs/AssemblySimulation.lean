import TapeCompiler.Proofs.AssemblyText
import TapeCompiler.Proofs.Parsing

/-!
# Assembly does what the source says

The machine works on a tape of its own (`Machine.tape`): its memory, with `%rbx` as
the data pointer. Every line of a tree does to it what the tree says, and leaves the
stack alone (`Machine.Here`), so the code of a program realises its tree
(`Machine.realises`). Before that `main` saves `%rbx` and points it at the tape, and
after it `%rbx` is taken back and `%eax` cleared (`Machine.Returned`).

The main result is `Machine.generate_assembly_simulates`: for every source that parses, the
generated text simulates its commands, whatever the platform and the state that `main`
is called in.
-/

namespace TapeCompiler.Machine

open StateTransition

/-- What the machine does its work on. -/
def tape (m : Machine) : Tape where
  memory := m.memory
  pointer := m.rbx
  input := m.input
  output := m.output

/-- The machine is about to execute the line `pc`, with the given tape and stack. -/
structure Here (stack : List UInt64) (pc : Nat) (t : Tape) (m : Machine) : Prop where
  line : m.line = pc
  tape : m.tape = t
  stack : m.stack = stack

variable {code : List Line} {p : Platform} {stack : List UInt64} {pc : Nat} {t : Tape} {m : Machine}

theorem step_instruction {i : Instruction} (hi : code[pc]? = some (.instruction i))
    (h : Here stack pc t m) : step code p m = m.execute code p i := by
  rw [step, h.line, hi]

theorem step_label {name : String} (hi : code[pc]? = some (.label name)) (h : Here stack pc t m) :
    step code p m = some m.next := by
  rw [step, h.line, hi]

theorem Here.next (h : Here stack pc t m) : Here stack (pc + 1) t m.next where
  line := congrArg (· + 1) h.line
  tape := h.tape
  stack := h.stack

/-! ## Leaves -/

/-- One instruction for a counted step. -/
theorem step_counted {k : Nat} {s : Step} (hi : code[pc]? = some (.instruction (.counted k s)))
    (h : Here stack pc t m) :
    ∃ m', step code p m = some m' ∧ Here stack (pc + 1) (t.perform (List.replicate k s.command)) m' := by
  rw [step_instruction hi h]
  obtain ⟨rfl, rfl, rfl⟩ := h
  cases s with
  | moveRight => exact ⟨_, rfl, rfl, (m.tape.perform_right k).symm, rfl⟩
  | moveLeft => exact ⟨_, rfl, rfl, (m.tape.perform_left k).symm, rfl⟩
  -- The immediate is the count as far as a byte can tell.
  | increment =>
    rw [Step.command, Tape.perform_add, ← UInt8.ofNat_mod_size]
    exact ⟨_, rfl, rfl, rfl, rfl⟩
  | decrement =>
    rw [Step.command, Tape.perform_sub, ← UInt8.ofNat_mod_size]
    exact ⟨_, rfl, rfl, rfl, rfl⟩

/-- Copies of the instruction for a counted step. -/
theorem reaches_counted {n k : Nat} {s : Step}
    (hsits : Scheme.Sits code pc (List.replicate (n + 1) (.instruction (.counted k s))))
    (h : Here stack pc t m) :
    ∃ m', Here stack (pc + (n + 1)) (t.perform (List.replicate ((n + 1) * k) s.command)) m' ∧
      Reaches₁ (step code p) m m' := by
  induction n generalizing pc t m with
  | zero =>
    obtain ⟨m', hstep, hm'⟩ := step_counted (p := p) hsits.head h
    exact ⟨m', by simpa using hm', .single hstep⟩
  | succ n ih =>
    rw [List.replicate_succ] at hsits
    obtain ⟨m₁, hstep, hm₁⟩ := step_counted (p := p) hsits.head h
    obtain ⟨m', hm', hreach⟩ := ih hsits.tail hm₁
    rw [← Tape.perform_append, List.replicate_append_replicate, Nat.add_assoc, Nat.add_comm 1] at hm'
    rw [Nat.succ_mul, Nat.add_comm _ k]
    exact ⟨m', hm', .head hstep hreach⟩

theorem reaches_putChar
    (hsits : Scheme.Sits code pc [.instruction .movzbl, .instruction (.call .putChar)])
    (h : Here stack pc t m) :
    ∃ m', Here stack (pc + 2) (t.perform [.put]) m' ∧ Reaches₁ (step code p) m m' := by
  have hload : step code p m = some { m.next with edi := m.byte.toUInt32 } :=
    step_instruction hsits.head h
  have hm₁ : Here stack (pc + 1) t { m.next with edi := m.byte.toUInt32 } :=
    ⟨h.next.line, h.tape, h.stack⟩
  have hcall := step_instruction (p := p) hsits.tail.head hm₁
  refine ⟨_, ?_, .head hload (.single hcall)⟩
  obtain ⟨rfl, rfl, rfl⟩ := h
  refine ⟨rfl, ?_, rfl⟩
  simp [tape, byte, next, clobber, Tape.apply, Tape.cell]

/-- Storing what a call has returned. -/
theorem step_movb (hi : code[pc]? = some (.instruction .movb)) (h : Here stack pc t m) :
    ∃ m', step code p m = some m' ∧ Here stack (pc + 1) (t.store m.eax.toUInt8) m' := by
  rw [step_instruction hi h]
  obtain ⟨rfl, rfl, rfl⟩ := h
  exact ⟨_, rfl, rfl, rfl, rfl⟩

theorem reaches_getChar
    (hsits : Scheme.Sits code pc [.instruction (.call .getChar), .instruction .movb])
    (h : Here stack pc t m) :
    ∃ m', Here stack (pc + 2) (t.perform [.get]) m' ∧ Reaches₁ (step code p) m m' := by
  have hcall : step code p m = m.execute code p (.call .getChar) := step_instruction hsits.head h
  obtain ⟨rfl, rfl, rfl⟩ := h
  cases hinput : m.input with
  | nil =>
    have hget : m.tape.perform [.get] = m.tape.store 255 := by
      simp [Tape.apply, tape, hinput]
    rw [execute, hinput] at hcall
    obtain ⟨m', hstore, hm'⟩ := step_movb (p := p) hsits.tail.head
      (m := { m.next.clobber (p.scratch m) with eax := 0xFFFFFFFF }) ⟨rfl, rfl, rfl⟩
    refine ⟨m', ⟨hm'.line, ?_, hm'.stack⟩, .head hcall (.single hstore)⟩
    have hlow : (0xFFFFFFFF : UInt32).toUInt8 = 255 := by decide
    rw [hm'.tape, hget, hlow]
    rfl
  | cons b rest =>
    have hget : m.tape.perform [.get] = { m.tape.store b with input := rest } := by
      simp [Tape.apply, tape, hinput]
    rw [execute, hinput] at hcall
    obtain ⟨m', hstore, hm'⟩ := step_movb (p := p) hsits.tail.head
      (m := { m.next.clobber (p.scratch m) with eax := b.toUInt32, input := rest }) ⟨rfl, rfl, rfl⟩
    refine ⟨m', ⟨hm'.line, ?_, hm'.stack⟩, .head hcall (.single hstore)⟩
    rw [hm'.tape, hget, UInt8.toUInt8_toUInt32]
    rfl

theorem reaches_leaf {o : LoweringOptions} {s : Stmt} (hs : s.isLoop = false) (hk : s.isKnown)
    (hc : s.isCounted) (hsits : Scheme.Sits code pc ((Scheme.lines o).leaf s)) (h : Here stack pc t m) :
    ∃ m', Here stack (pc + ((Scheme.lines o).leaf s).length) (t.perform s.commands) m' ∧
      Reaches₁ (step code p) m m' := by
  cases s with
  | repeated step pos count =>
    obtain ⟨n, hn, htotal⟩ := o.copies_eq_succ (of_decide_eq_true hc)
    simp only [Scheme.lines, hn, List.length_replicate] at hsits ⊢
    have hrun := reaches_counted (p := p) hsits h
    rwa [htotal] at hrun
  | printChar => exact reaches_putChar hsits h
  | readChar => exact reaches_getChar hsits h
  | loop => cases hs
  | foreign | absent => cases hk

/-! ## Loops -/

/-- A symbol that is defined once is found where it is defined. -/
theorem idxOf?_label (hnodup : (symbols code).Nodup) {i : Nat} {name : String}
    (hi : code[i]? = some (.label name)) : code.idxOf? (.label name) = some i := by
  induction code generalizing i with
  | nil => cases hi
  | cons l code ih =>
    rw [List.idxOf?_cons]
    cases i with
    | zero =>
      obtain rfl : l = .label name := Option.some.inj hi
      rw [if_pos (by simp)]
    | succ i =>
      rw [List.getElem?_cons_succ] at hi
      have hmem : name ∈ symbols code := List.mem_filterMap.2 ⟨_, List.mem_of_getElem? hi, rfl⟩
      have hne : l ≠ .label name := by
        rintro rfl
        exact (List.nodup_cons.1 hnodup).1 hmem
      have hrest : (symbols code).Nodup := hnodup.sublist ((List.sublist_cons_self l code).filterMap _)
      rw [if_neg (by simpa using hne), ih hrest hi]
      rfl

theorem jump_label (hnodup : (symbols code).Nodup) {i : Nat} {name : String}
    (hi : code[i]? = some (.label name)) (m : Machine) :
    m.jump code name = some { m with line := i } := by
  rw [jump, idxOf?_label hnodup hi]
  rfl

/-- The test of a loop leads to the line after it, or to the line after the label of
    the body. -/
theorem reaches_test (hnodup : (symbols code).Nodup) {start : Nat} {body condition : String}
    (hbody : code[start]? = some (.label body))
    (hsits : Scheme.Sits code pc
      [.label condition, .instruction (.cmpb 0), .instruction (.jne body)])
    (h : Here stack pc t m) :
    ∃ m', Here stack (if t.cell = 0 then pc + 3 else start + 1) t m' ∧
      Reaches₁ (step code p) m m' := by
  have hlabel : step code p m = some m.next := step_label hsits.head h
  obtain ⟨m₂, hcompare, hm₂, hzero⟩ : ∃ m₂, step code p m.next = some m₂ ∧
      Here stack (pc + 2) t m₂ ∧ m₂.zero = decide (t.cell = 0) := by
    rw [step_instruction hsits.tail.head h.next, ← h.tape]
    exact ⟨_, rfl, ⟨h.next.next.line, rfl, h.stack⟩, rfl⟩
  have hjump : step code p m₂ = if m₂.zero then some m₂.next else m₂.jump code body :=
    step_instruction hsits.tail.tail.head hm₂
  rw [hzero, jump_label hnodup hbody] at hjump
  split
  case isTrue hcell =>
    rw [if_pos (by simpa using hcell)] at hjump
    exact ⟨_, hm₂.next, .head hlabel (.head hcompare (.single hjump))⟩
  case isFalse hcell =>
    rw [if_neg (by simpa using hcell)] at hjump
    -- The jump leads to the label, which takes a step of its own.
    have hm₃ : Here stack start t { m₂ with line := start } := ⟨rfl, hm₂.tape, hm₂.stack⟩
    have hinto : step code p { m₂ with line := start } = some _ := step_label hbody hm₃
    exact ⟨_, hm₃.next, .head hlabel (.head hcompare (.head hjump (.single hinto)))⟩

/-- A loop starts with a jump to its test. -/
theorem step_jmp (hnodup : (symbols code).Nodup) {target : Nat} {condition : String}
    (hcondition : code[target]? = some (.label condition))
    (hi : code[pc]? = some (.instruction (.jmp condition))) (h : Here stack pc t m) :
    ∃ m', step code p m = some m' ∧ Here stack target t m' := by
  rw [step_instruction hi h, execute, jump_label hnodup hcondition]
  exact ⟨_, rfl, rfl, h.tape, h.stack⟩

/-- Before a loop, and at the end of its body, its test is made. -/
theorem reaches_loop {o : LoweringOptions} (hnodup : (symbols code).Nodup) {n : Nat} {pos close : Pos}
    {body : List Stmt} (hsits : Scheme.Sits code pc ((Scheme.lines o).stmt n (.loop pos body close)))
    (h : Here stack pc t m ∨ Here stack
      (pc + ((Scheme.lines o).enter n).length + ((Scheme.lines o).block (n + 2) body).length) t m) :
    ∃ m', Here stack (if t.cell = 0 then pc + ((Scheme.lines o).stmt n (.loop pos body close)).length
        else pc + ((Scheme.lines o).enter n).length) t m' ∧ Reaches₁ (step code p) m m' := by
  rw [Scheme.stmt, List.append_assoc] at hsits
  have henter := hsits.left
  have hexit := hsits.right.right
  have hlength : ((Scheme.lines o).stmt n (.loop pos body close)).length =
      ((Scheme.lines o).enter n).length + ((Scheme.lines o).block (n + 2) body).length + 3 := by
    rw [Scheme.stmt, List.length_append, List.length_append]
    rfl
  rw [hlength, ← Nat.add_assoc, ← Nat.add_assoc]
  rcases h with h | h
  · obtain ⟨m₁, hjmp, hm₁⟩ := step_jmp (p := p) hnodup hexit.head henter.head h
    obtain ⟨m', hm', hreach⟩ := reaches_test (p := p) hnodup henter.tail.head hexit hm₁
    exact ⟨m', hm', .head hjmp hreach⟩
  · exact reaches_test hnodup henter.tail.head hexit h

/-! ## Programs -/

theorem output_jump {m' : Machine} {name : String} (h : m.jump code name = some m') :
    m'.output = m.output := by
  obtain ⟨i, -, rfl⟩ := Option.map_eq_some_iff.1 h
  rfl

/-- No instruction takes output back. -/
theorem output_execute {m' : Machine} {i : Instruction} (h : m.execute code p i = some m') :
    m.output <+: m'.output := by
  cases i with
  | addq | subq | addb | subb | cmpb | movzbl | movb | xorl | pushq =>
    obtain rfl := Option.some.inj h
    exact List.prefix_rfl
  | leaq | popq =>
    rw [execute] at h
    split at h <;> cases h
    exact List.prefix_rfl
  | call callee =>
    cases callee with
    | putChar =>
      obtain rfl := Option.some.inj h
      exact List.prefix_append ..
    | getChar =>
      rw [execute] at h
      split at h <;> cases h <;> exact List.prefix_rfl
  | jmp name => rw [output_jump h]
  | jne name =>
    rw [execute] at h
    split at h
    · obtain rfl := Option.some.inj h
      exact List.prefix_rfl
    · rw [output_jump h]
  | ret => cases h

theorem grows (code : List Line) (p : Platform) : Grows (step code p) (·.output) := by
  intro m m' h
  rw [step] at h
  split at h
  · obtain rfl := Option.some.inj h
    exact List.prefix_rfl
  · exact output_execute h
  · cases h
  · cases h

/-- The machine has returned from `main`, which was called in the state `start`, and
    left the tape `t`: `%eax` is zero, the stack and `%rbx` are as they were, and just
    before `%rbx` was taken back it was the data pointer. -/
structure Returned (code : List Line) (p : Platform) (start : Machine) (t : Tape) (m : Machine) :
    Prop where
  ret : code[m.line]? = some (.instruction .ret)
  memory : m.memory = t.memory
  input : m.input = t.input
  output : m.output = t.output
  eax : m.eax = 0
  stack : m.stack = start.stack
  rbx : m.rbx = start.rbx
  pointer : ∃ before, Reaches (step code p) start before ∧
    code[before.line]? = some (.instruction .popq) ∧ before.rbx = t.pointer ∧
    step code p before = some m

theorem Returned.step_eq_none {start : Machine} (h : Returned code p start t m) : step code p m = none := by
  rw [step, h.ret]
  rfl

/-- At the end of the tree `main` returns. -/
theorem reaches_returned {start : Machine}
    (hsits : Scheme.Sits code pc [.instruction .xorl, .instruction .popq, .instruction .ret])
    (h : Here (start.rbx :: start.stack) pc t m) (hstart : Reaches (step code p) start m) :
    ∃ m', Returned code p start t m' ∧ Reaches (step code p) m m' := by
  obtain ⟨m₁, hclear, hm₁, heax⟩ : ∃ m₁, step code p m = some m₁ ∧
      Here (start.rbx :: start.stack) (pc + 1) t m₁ ∧ m₁.eax = 0 := by
    rw [step_instruction hsits.head h]
    exact ⟨_, rfl, ⟨h.next.line, h.tape, h.stack⟩, rfl⟩
  have hpop : step code p m₁ = some { m₁.next with rbx := start.rbx, stack := start.stack } := by
    rw [step_instruction hsits.tail.head hm₁, execute, hm₁.stack]
  refine ⟨_, ?_, .head hclear (.single hpop)⟩
  have htape := hm₁.tape
  have hret : code[m₁.next.line]? = some (.instruction .ret) := by
    rw [hm₁.next.line]
    exact hsits.tail.tail.head
  have hbefore : code[m₁.line]? = some (.instruction .popq) := by
    rw [hm₁.line]
    exact hsits.tail.head
  exact {
    ret := hret
    memory := congrArg Tape.memory htape
    input := congrArg Tape.input htape
    output := congrArg Tape.output htape
    eax := heax
    stack := rfl
    rbx := rfl
    pointer := ⟨m₁, hstart.tail hclear, hbefore, congrArg Tape.pointer htape, hpop⟩ }

/-- The code of a program does what its tree does. -/
theorem realises {o : LoweringOptions} (hnodup : (symbols code).Nodup) {stop : Nat}
    (hstop : Scheme.Sits code stop [.instruction .xorl, .instruction .popq, .instruction .ret])
    (start : Machine) :
    Realises (Scheme.lines o) code stop (step code p) (·.output)
      (fun pc t m => Here (start.rbx :: start.stack) pc t m ∧ Reaches (step code p) start m)
      (Returned code p start) where
  leaf := by
    rintro s pc t m hs hk hc hsits ⟨h, hstart⟩
    obtain ⟨m', hm', hreach⟩ := reaches_leaf (p := p) hs hk hc hsits h
    exact ⟨m', ⟨hm', hstart.trans hreach.to_reflTransGen⟩, hreach⟩
  test := by
    intro n pc pos close body t m hsits hhere
    have hstart : Reaches (step code p) start m := hhere.elim And.right And.right
    obtain ⟨m', hm', hreach⟩ := reaches_loop (p := p) hnodup hsits (hhere.imp And.left And.left)
    exact ⟨m', ⟨hm', hstart.trans hreach.to_reflTransGen⟩, hreach⟩
  halt := by
    rintro t m ⟨h, hstart⟩
    exact reaches_returned hstop h hstart
  done h := h.step_eq_none
  output_here := by
    rintro pc t m ⟨h, -⟩
    rw [← h.tape]
    rfl
  output_done h := h.output.symm
  grows := grows code p

/-- The machine is about to execute `main`, with memory full of zeros and nothing
    written yet. -/
structure Called (code : List Line) (m : Machine) : Prop where
  entry : code[m.line]? = some (.label "main")
  memory : m.memory = fun _ => 0
  output : m.output = []

/-- `main` starts by saving `%rbx` and pointing it at the tape. -/
theorem reaches_main {start : Machine} (hsits : Scheme.Sits code pc
      [.label "main", .instruction .pushq, .instruction (.leaq "tape")])
    (htape : .label "tape" ∈ code) (hline : start.line = pc) (h : Called code start) :
    ∃ m, Here (start.rbx :: start.stack) (pc + 3) (.blank (p.address "tape") start.input) m ∧
      Reaches (step code p) start m := by
  have hstart : Here start.stack pc start.tape start := ⟨hline, rfl, rfl⟩
  have hlabel : step code p start = some start.next := step_label hsits.head hstart
  obtain ⟨m₂, hpush, hm₂⟩ : ∃ m₂, step code p start.next = some m₂ ∧
      Here (start.rbx :: start.stack) (pc + 2) start.tape m₂ := by
    rw [step_instruction hsits.tail.head hstart.next]
    exact ⟨_, rfl, hstart.next.next.line, rfl, rfl⟩
  obtain ⟨m₃, hload, hm₃⟩ : ∃ m₃, step code p m₂ = some m₃ ∧ Here (start.rbx :: start.stack) (pc + 3)
      { start.tape with pointer := p.address "tape" } m₃ := by
    rw [step_instruction hsits.tail.tail.head hm₂, execute, if_pos htape, ← hm₂.tape]
    exact ⟨_, rfl, hm₂.next.line, rfl, hm₂.stack⟩
  have hblank : Tape.blank (p.address "tape") start.input =
      { start.tape with pointer := p.address "tape" } := by
    rw [Tape.blank, ← h.memory, ← h.output]
    rfl
  rw [hblank]
  exact ⟨m₃, hm₃, .head hlabel (.head hpush (.single hload))⟩

/-- The code of a program follows its tree from the call of `main` on. -/
theorem follows_code {o : LoweringOptions} {body : List Stmt} (hsound : Stmt.Sound body) (p : Platform)
    {start : Machine} (h : Called (Machine.code o body) start) :
    Follows (step (Machine.code o body) p) (·.output) (Returned (Machine.code o body) p start)
      ⟨body, .blank (p.address "tape") start.input⟩ start := by
  have hnodup : (symbols (Machine.code o body)).Nodup := nodup_symbols (hsound.imp fun s hs => hs.1)
  have hentry : Scheme.Sits (Machine.code o body) 3
      [.label "main", .instruction .pushq, .instruction (.leaq "tape")] :=
    ⟨[.directive, .directive, .directive], (Scheme.lines o).block 0 body ++ epilogue,
      List.append_assoc .., rfl⟩
  have hblock : Scheme.Sits (Machine.code o body) 6 ((Scheme.lines o).block 0 body) :=
    ⟨prologue, epilogue, rfl, rfl⟩
  have hrest : Scheme.Sits (Machine.code o body) (6 + ((Scheme.lines o).block 0 body).length)
      ([.instruction .xorl, .instruction .popq, .instruction .ret] ++ epilogue.drop 3) :=
    ⟨prologue ++ (Scheme.lines o).block 0 body, [], (List.append_nil _).symm, List.length_append⟩
  have htape : .label "tape" ∈ Machine.code o body := List.mem_append_right _ (by decide)
  -- `main` is defined once, so there is only one line to start at.
  have hline : start.line = 3 := Option.some.inj
    ((idxOf?_label hnodup h.entry).symm.trans (idxOf?_label hnodup hentry.head))
  obtain ⟨m, hm, hreach⟩ := reaches_main (p := p) hentry htape hline h
  exact ((realises hnodup hrest.left start).follows hsound hblock rfl ⟨hm, hreach⟩).of_reaches
    (grows _ p) hreach

/-- Generated assembly does what the source says. -/
theorem generate_assembly_simulates {filename : String} {src : Bytes} {program : Program}
    (h : Program.parse (.ofBytes filename src) = .ok program) (optimized : Bool) :
    ∃ text code, program.generate { target := Assembly.target, optimized } = .ok text ∧
      read text = some code ∧ .label "main" ∈ code ∧
      ∀ (p : Platform) (m : Machine), Called code m →
        Simulates (step code p) (·.output) (Returned code p m) m src.commands
          (.blank (p.address "tape") m.input) := by
  obtain ⟨⟨hsound, -⟩, hcommands⟩ := Program.canonical_of_parse h
  have hknown := hsound.imp fun s hs => hs.1
  refine ⟨_, _, Program.generate_eq hknown (options optimized), read_text optimized hknown, ?_, ?_⟩
  · exact List.mem_append_left _ (List.mem_append_left _ (by decide))
  · intro p m hm
    rw [← hcommands]
    exact (follows_code hsound p hm).simulates hsound

/-- The source `,[.[-],]` parses, and `main` of its text can be called to echo `Hi`. -/
theorem generate_assembly_simulates_echo : ∃ program,
    Program.parse (.ofBytes "echo.bf" [0x2C, 0x5B, 0x2E, 0x5B, 0x2D, 0x5D, 0x2C, 0x5D]) = .ok program ∧
      ∀ optimized, ∃ text code m,
        program.generate { target := Assembly.target, optimized } = .ok text ∧
          read text = some code ∧ Called code m ∧ m.input = [0x48, 0x69] ∧
          ∀ p : Platform, Simulates (step code p) (·.output) (Returned code p m) m
            [.get, .enter, .put, .enter, .sub, .leave, .get, .leave]
            (.blank (p.address "tape") [0x48, 0x69]) := by
  obtain ⟨program, hparse⟩ : ∃ program, Program.parse
      (.ofBytes "echo.bf" [0x2C, 0x5B, 0x2E, 0x5B, 0x2D, 0x5D, 0x2C, 0x5D]) = .ok program := ⟨_, rfl⟩
  refine ⟨program, hparse, fun optimized => ?_⟩
  obtain ⟨text, code, htext, hcode, hmain, hsimulates⟩ := generate_assembly_simulates hparse optimized
  obtain ⟨i, hi⟩ := List.getElem?_of_mem hmain
  let m : Machine := ⟨i, 7, 1, 2, false, [0], fun _ => 0, [0x48, 0x69], []⟩
  have hm : Called code m := ⟨hi, rfl, rfl⟩
  exact ⟨text, code, m, htext, hcode, hm, rfl, fun p => hsimulates p m hm⟩

end TapeCompiler.Machine
