import Xv6.Console.Input

/-!
# The line discipline of the console

What the console is for, without the circular buffer: a queue of finished characters and the line that
is being typed. Over every run, whatever the processes read from the console is what they would read
from these two lists, the indices stay within the buffer, and every finished character is read once
and in order.
-/

namespace Xv6.Console

/-! ### The abstract discipline -/

/-- The finished characters that no one has taken yet and the line being typed. To say that none is
lost, all characters ever finished and all ever taken are recorded. -/
structure Line where
  lines : List UInt8
  taken : List UInt8
  committed : List UInt8
  pending : List UInt8

namespace Line

/-- The pending line and the character that ends it are finished. -/
def commit (l : Line) (c : UInt8) : Line where
  lines := l.lines ++ (l.pending ++ [c])
  taken := l.taken
  committed := l.committed ++ (l.pending ++ [c])
  pending := []

/-- A character that is not an editing character is typed. -/
def append (l : Line) (c : UInt8) : Line :=
  if INPUT_BUF ≤ l.committed.length + l.pending.length then
    l
  else if c = NEWLINE ∨ c = C 'D' ∨ l.committed.length + l.pending.length + 1 = INPUT_BUF then
    l.commit c
  else
    { l with pending := l.pending ++ [c] }

/-- A character arrives. `^P` and NUL are not input. -/
def type (l : Line) (c : UInt8) : Line :=
  if c = C 'P' ∨ c = 0 then
    l
  else if c = C 'U' then
    { l with pending := [] }
  else if c = C 'H' ∨ c = 0x7f then
    { l with pending := l.pending.dropLast }
  else
    l.append (if c = '\r'.toNat.toUInt8 then NEWLINE else c)

/-- The first finished character `c` is taken, and `q` is left. -/
def take (l : Line) (c : UInt8) (q : List UInt8) : Line :=
  { l with taken := l.taken ++ [c], committed := q }

/-- A read takes characters until it has enough of them, a line ends, `^D` comes, or none is left. -/
def read (killed : Bool) (target : Nat) : Nat → Line → Line × List UInt8 × Outcome
  | 0, l => (l, [], .ret target)
  | n + 1, l =>
    match l.committed with
    | [] => (l, [], if killed then .ret (-1) else .sleep (n + 1))
    | c :: q =>
      if c = C 'D' then
        (if n + 1 < target then l else l.take c q, [], .ret (target - (n + 1 : Nat)))
      else if c = NEWLINE then
        (l.take c q, [c], .ret (target - n))
      else
        let (l, dst, out) := read killed target n (l.take c q)
        (l, c :: dst, out)

end Line

/-- The abstract console; a process that waits for input has a target and a number of characters still
to read. -/
structure Discipline (P : Type*) where
  line : Line
  killed : P → Bool
  waiting : P → Option (Nat × Nat)

variable {P : Type*}

def Discipline.init : Discipline P := ⟨⟨[], [], [], []⟩, fun _ => false, fun _ => none⟩

variable [DecidableEq P]

namespace Discipline

def read (a : Discipline P) (p : P) (target n : Nat) : Discipline P × List (Output P) :=
  let (line, dst, out) := Line.read (a.killed p) target n a.line
  let rd := match out with
    | .ret _ => none
    | .sleep n => some (target, n)
  ({ a with line := line, waiting := Function.update a.waiting p rd }, outputs p dst out)

def step (a : Discipline P) : Event P → Discipline P × List (Output P)
  | .intr cs => ({ a with line := cs.foldl Line.type a.line }, [])
  | .read p n =>
    match a.waiting p with
    | none => a.read p n.toInt.toNat n.toInt.toNat
    | some _ => (a, [])
  | .resume p =>
    match a.waiting p with
    | some (target, n) => a.read p target n
    | none => (a, [])
  | .kill p => ({ a with killed := Function.update a.killed p true }, [])

def run (a : Discipline P) : List (Event P) → Discipline P × List (Output P)
  | [] => (a, [])
  | ev :: evs =>
    let (a, out) := a.step ev
    let (a, outs) := a.run evs
    (a, out ++ outs)

end Discipline

/-! ### The buffer holds the two lists -/

/-- The buffer holds the finished characters and the pending line, which has no end. -/
structure Input.Holds (s : Input) (l : Line) : Prop where
  ring : s.ring.Holds (l.committed ++ l.pending)
  w : s.w = s.r + BitVec.ofNat 32 l.committed.length
  noNewline : NEWLINE ∉ l.pending

variable {s : Input} {l : Line} {c : UInt8}

lemma INPUT_BUF_lt : INPUT_BUF < 2 ^ 32 := by decide

namespace Input.Holds

lemma length_le (h : s.Holds l) : l.committed.length + l.pending.length ≤ INPUT_BUF := by
  have := h.ring.fits
  rwa [List.length_append] at this

lemma toNat_e (h : s.Holds l) : (s.e - s.r).toNat = l.committed.length + l.pending.length := by
  have := h.ring.toNat_sub
  rwa [List.length_append] at this

lemma toNat_w (h : s.Holds l) : (s.w - s.r).toNat = l.committed.length := by
  have hle := h.length_le
  have hlt := INPUT_BUF_lt
  rw [h.w, BitVec.add_comm, BitVec.add_sub_cancel, BitVec.toNat_ofNat]
  exact Nat.mod_eq_of_lt (by omega)

lemma toNat_pending (h : s.Holds l) : (s.e - s.w).toNat = l.pending.length := by
  have he := h.toNat_e
  have hw := h.toNat_w
  bv_omega

/-- `e = w` is the test for an empty pending line. -/
lemma e_eq_w_iff (h : s.Holds l) : s.e = s.w ↔ l.pending = [] := by
  rw [← List.length_eq_zero_iff, ← h.toNat_pending]
  bv_omega

/-- `r = w` is the test for an empty queue of finished characters. -/
lemma r_eq_w_iff (h : s.Holds l) : s.r = s.w ↔ l.committed = [] := by
  have hw := h.toNat_w
  constructor
  · intro heq
    rw [heq, BitVec.sub_self] at hw
    exact List.length_eq_zero_iff.mp hw.symm
  · intro hnil
    have := h.w
    rw [hnil] at this
    simpa using this.symm

/-! ### Editing -/

lemma back (h : s.Holds l) (hp : l.pending ≠ []) :
    s.buf (Fifo.cell INPUT_BUF (s.e - 1#32)) ≠ NEWLINE ∧
      ({ s with e := s.e - 1#32 } : Input).Holds { l with pending := l.pending.dropLast } := by
  have hq : l.committed ++ l.pending = (l.committed ++ l.pending.dropLast) ++ [l.pending.getLast hp] := by
    rw [List.append_assoc, List.dropLast_concat_getLast]
  have hring := h.ring
  rw [hq] at hring
  obtain ⟨hback, hring⟩ := hring.unpush
  refine ⟨fun heq => h.noNewline ?_, hring, h.w, fun hmem => h.noNewline ?_⟩
  · have : l.pending.getLast hp = NEWLINE := hback.symm.trans heq
    exact this ▸ List.getLast_mem hp
  · exact (List.dropLast_sublist _).subset hmem

/-- `^U` removes the whole pending line. -/
lemma killLine (h : s.Holds l) {n : Nat} (hn : l.pending.length ≤ n) :
    (Console.killLine n s).Holds { l with pending := [] } := by
  induction n generalizing s l with
  | zero =>
    have hnil : l.pending = [] := List.length_eq_zero_iff.mp (by omega)
    rw [← hnil]
    exact h
  | succ n ih =>
    unfold Console.killLine
    by_cases hp : l.pending = []
    · rw [if_neg fun hc => hc.1 (h.e_eq_w_iff.mpr hp), ← hp]
      exact h
    · obtain ⟨hback, hrest⟩ := h.back hp
      rw [if_pos ⟨fun heq => hp (h.e_eq_w_iff.mp heq), hback⟩]
      refine ih (l := { l with pending := l.pending.dropLast }) hrest ?_
      rw [List.length_dropLast]
      omega

lemma backspace (h : s.Holds l) :
    (if s.e ≠ s.w then { s with e := s.e - 1#32 } else s).Holds
      { l with pending := l.pending.dropLast } := by
  by_cases hp : l.pending = []
  · have hdrop : l.pending.dropLast = l.pending := by rw [hp, List.dropLast_nil]
    rw [if_neg (not_not.mpr (h.e_eq_w_iff.mpr hp)), hdrop]
    exact h
  · rw [if_pos fun heq => hp (h.e_eq_w_iff.mp heq)]
    exact (h.back hp).2

/-! ### Typing -/

/-- `input.buf[input.e++ % INPUT_BUF] = c` -/
lemma push (h : s.Holds l) (hlt : l.committed.length + l.pending.length < INPUT_BUF) (c : UInt8) :
    (s.ring.push c).Holds (l.committed ++ (l.pending ++ [c])) := by
  rw [← List.append_assoc]
  refine h.ring.push fun hfull => ?_
  have := h.ring.isFull_iff.mp hfull
  rw [List.length_append] at this
  omega

/-- An ordinary character is typed; there is a wakeup if it finishes a line. -/
lemma append (h : s.Holds l) (c : UInt8) (s' : Input)
    (hs' : s' = { s with buf := Function.update s.buf (Fifo.cell INPUT_BUF s.e) c, e := s.e + 1#32 })
    (hlt : (s.e - s.r).toNat < INPUT_BUF) :
    if c = NEWLINE ∨ c = C 'D' ∨ s'.e = s'.r + BitVec.ofNat 32 INPUT_BUF then
      ({ s' with w := s'.e } : Input).Holds (l.append c)
    else s'.Holds (l.append c) ∧ (l.append c).committed = l.committed := by
  have hlt' : l.committed.length + l.pending.length < INPUT_BUF := h.toNat_e ▸ hlt
  have hring : s'.ring.Holds (l.committed ++ (l.pending ++ [c])) := hs' ▸ h.push hlt' c
  have hfull : s'.e = s'.r + BitVec.ofNat 32 INPUT_BUF ↔
      l.committed.length + l.pending.length + 1 = INPUT_BUF := by
    refine hring.isFull_iff.trans ?_
    simp only [List.length_append, List.length_singleton, Nat.add_assoc]
  have happend : l.append c = if c = NEWLINE ∨ c = C 'D' ∨
      l.committed.length + l.pending.length + 1 = INPUT_BUF then l.commit c
      else { l with pending := l.pending ++ [c] } := if_neg (Nat.not_le.mpr hlt')
  rw [happend]
  simp only [hfull]
  split_ifs with hend
  · refine ⟨?_, ?_, List.not_mem_nil⟩
    · show s'.ring.Holds (l.committed ++ (l.pending ++ [c]) ++ [])
      rwa [List.append_nil]
    · exact hring.count
  · refine ⟨⟨hring, ?_, fun hmem => ?_⟩, rfl⟩
    · rw [hs']
      exact h.w
    · rcases List.mem_append.mp hmem with hmem | hmem
      · exact h.noNewline hmem
      · exact hend (Or.inl (List.mem_singleton.mp hmem).symm)

/-- One character: the buffer follows the abstract line, and there is a wakeup whenever characters are
finished. -/
lemma typeChar (h : s.Holds l) (c : UInt8) :
    (Console.typeChar s c).1.Holds (l.type c) ∧
      ((Console.typeChar s c).2 = false → (l.type c).committed = l.committed) := by
  unfold Console.typeChar Line.type
  by_cases hP : c = C 'P'
  · rw [if_pos hP, if_pos (Or.inl hP)]
    exact ⟨h, fun _ => rfl⟩
  · rw [if_neg hP]
    by_cases hzero : c = 0
    · subst hzero
      rw [if_neg (by decide), if_neg (by decide), if_neg fun hc => hc.1 rfl, if_pos (Or.inr rfl)]
      exact ⟨h, fun _ => rfl⟩
    · rw [if_neg (not_or.mpr ⟨hP, hzero⟩)]
      by_cases hU : c = C 'U'
      · rw [if_pos hU, if_pos hU]
        exact ⟨h.killLine h.toNat_pending.ge, fun _ => rfl⟩
      · rw [if_neg hU, if_neg hU]
        by_cases hH : c = C 'H' ∨ c = 0x7f
        · rw [if_pos hH, if_pos hH]
          exact ⟨h.backspace, fun _ => rfl⟩
        · rw [if_neg hH, if_neg hH]
          generalize hc' : (if c = '\r'.toNat.toUInt8 then NEWLINE else c) = c'
          by_cases hlt : (s.e - s.r).toNat < INPUT_BUF
          · have happend := h.append c' _ rfl hlt
            rw [if_pos ⟨hzero, hlt⟩]
            dsimp only at happend ⊢
            split_ifs at happend ⊢
            · exact ⟨happend, fun hf => absurd hf (by decide)⟩
            · exact ⟨happend.1, fun _ => happend.2⟩
          · have hfull : l.append c' = l := if_pos (by rw [← h.toNat_e]; omega)
            rw [if_neg fun hc => hlt hc.2, hfull]
            exact ⟨h, fun _ => rfl⟩

/-! ### Reading -/

/-- Taking the first finished character. -/
lemma take {q : List UInt8} (h : s.Holds l) (hq : l.committed = c :: q) :
    s.buf (Fifo.cell INPUT_BUF s.r) = c ∧ ({ s with r := s.r + 1#32 } : Input).Holds (l.take c q) := by
  have hring := h.ring
  rw [hq, List.cons_append] at hring
  obtain ⟨hfront, hpop⟩ := hring.pop
  refine ⟨hfront, hpop, ?_, h.noNewline⟩
  show s.w = s.r + 1#32 + BitVec.ofNat 32 q.length
  rw [h.w, hq, List.length_cons, Nat.add_comm, BitVec.ofNat_add, BitVec.add_assoc]

/-- The loop of `consoleread` takes the same characters as the abstract read. -/
lemma readLoop (h : s.Holds l) (killed : Bool) (target n : Nat) :
    (Console.readLoop killed target n s).1.Holds (l.read killed target n).1 ∧
      (Console.readLoop killed target n s).2 = (l.read killed target n).2 := by
  induction n generalizing s l with
  | zero => exact ⟨h, rfl⟩
  | succ n ih =>
    unfold Console.readLoop Line.read
    cases hq : l.committed with
    | nil =>
      rw [if_pos (h.r_eq_w_iff.mpr hq)]
      exact ⟨h, rfl⟩
    | cons c q =>
      obtain ⟨hc, htake⟩ := h.take hq
      rw [if_neg fun heq => by simp [h.r_eq_w_iff.mp heq] at hq, hc]
      dsimp only
      split_ifs with hD htarget hN
      · rw [BitVec.add_sub_cancel]
        exact ⟨h, rfl⟩
      · exact ⟨htake, rfl⟩
      · exact ⟨htake, rfl⟩
      · obtain ⟨h1, h2⟩ := ih htake
        exact ⟨h1, congrArg (fun x : List UInt8 × Outcome => (c :: x.1, x.2)) h2⟩

end Input.Holds

/-! ### What reading keeps of the record -/

/-- Everything finished has been taken or is still there. -/
def Line.Recorded (l : Line) : Prop := l.lines = l.taken ++ l.committed

lemma Line.Recorded.type (h : l.Recorded) (c : UInt8) : (l.type c).Recorded := by
  unfold Line.Recorded at h ⊢
  have happend : ∀ c, (l.append c).lines = (l.append c).taken ++ (l.append c).committed := by
    intro c
    unfold Line.append
    split_ifs
    · exact h
    · simp only [Line.commit, h, List.append_assoc]
    · exact h
  unfold Line.type
  split_ifs
  · exact h
  · exact h
  · exact h
  · exact happend _
  · exact happend _

/-- A read takes the characters it writes, and perhaps a `^D`, from the front of the queue. -/
lemma Line.read_takes (l : Line) (killed : Bool) (target n : Nat) :
    ∃ ds, (l.read killed target n).1.taken = l.taken ++ ds ∧
      l.committed = ds ++ (l.read killed target n).1.committed ∧
      (l.read killed target n).1.lines = l.lines ∧
      (l.read killed target n).2.1 = ds.filter (· ≠ C 'D') := by
  induction n generalizing l with
  | zero => exact ⟨[], by simp [Line.read]⟩
  | succ n ih =>
    unfold Line.read
    cases hq : l.committed with
    | nil => exact ⟨[], by simp [hq]⟩
    | cons c q =>
      dsimp only
      split_ifs with hD htarget hN
      · exact ⟨[], by simp [hq]⟩
      · exact ⟨[c], by simp [Line.take, hD]⟩
      · exact ⟨[c], by simp [Line.take, hD]⟩
      · obtain ⟨ds, h1, h2, h3, h4⟩ := ih (l.take c q)
        refine ⟨c :: ds, ?_, ?_, h3, ?_⟩
        · rw [h1, Line.take, List.append_assoc]
          rfl
        · rw [List.cons_append, ← h2]
          rfl
        · rw [List.filter_cons_of_pos (by simpa using hD), ← h4]

/-- If a read goes to sleep, there is nothing left to take, it still wants something, and the process
is not killed. -/
lemma Line.read_sleep {l : Line} {killed : Bool} {target n k : Nat}
    (h : (l.read killed target n).2.2 = .sleep k) :
    (l.read killed target n).1.committed = [] ∧ killed = false ∧ k ≠ 0 := by
  induction n generalizing l with
  | zero => cases h
  | succ n ih =>
    unfold Line.read at h ⊢
    cases hq : l.committed with
    | nil =>
      cases killed with
      | true => simp [hq] at h
      | false =>
        simp only [hq, Bool.false_eq_true, if_false, Outcome.sleep.injEq] at h ⊢
        exact ⟨trivial, trivial, by omega⟩
    | cons c q =>
      simp only [hq] at h ⊢
      split_ifs at h ⊢
      exact ih h

/-! ### Every run -/

/-- The state of the console follows the abstract one. A process that is asleep has nothing to read
and has not been killed. -/
structure State.Follows (s : State P) (a : Discipline P) : Prop where
  input : s.input.Holds a.line
  killed : s.killed = a.killed
  waiting : ∀ p, a.waiting p = (s.reader p).map fun rd => (rd.target, rd.n)
  asleep : ∀ p rd, s.reader p = some rd → rd.asleep = true →
    a.line.committed = [] ∧ s.killed p = false ∧ rd.n ≠ 0

variable {s : State P} {a : Discipline P}

omit [DecidableEq P] in
lemma State.follows_init : (State.init : State P).Follows Discipline.init where
  input := ⟨Fifo.holds_nil rfl, rfl, List.not_mem_nil⟩
  killed := rfl
  waiting := fun _ => rfl
  asleep := fun _ _ h => by cases h

namespace State.Follows

omit [DecidableEq P] in
lemma type (h : s.Follows a) (c : UInt8) :
    (s.type c).Follows { a with line := a.line.type c } := by
  obtain ⟨hinput, hquiet⟩ := h.input.typeChar c
  unfold State.type
  cases hwake : (typeChar s.input c).2 with
  | true =>
    simp only [hwake, if_true]
    refine ⟨hinput, h.killed, fun p => ?_, fun p rd hrd hasleep => ?_⟩
    · rw [h.waiting p]
      simp [State.wakeup, Option.map_map, Function.comp_def]
    · -- everyone has been woken
      simp only [State.wakeup, Option.map_eq_some_iff] at hrd
      obtain ⟨rd', -, rfl⟩ := hrd
      cases hasleep
  | false =>
    simp only [hwake, Bool.false_eq_true, if_false]
    refine ⟨hinput, h.killed, h.waiting, fun p rd hrd hasleep => ?_⟩
    obtain ⟨hnil, hrest⟩ := h.asleep p rd hrd hasleep
    exact ⟨(hquiet hwake).trans hnil, hrest⟩

omit [DecidableEq P] in
lemma consoleintr (h : s.Follows a) (cs : List UInt8) :
    (s.consoleintr cs).Follows { a with line := cs.foldl Line.type a.line } := by
  induction cs generalizing s a with
  | nil => exact h
  | cons c cs ih => exact ih (h.type c)

lemma consoleread (h : s.Follows a) (p : P) (target n : Nat) :
    (s.consoleread p target n).1.Follows (a.read p target n).1 ∧
      (s.consoleread p target n).2 = (a.read p target n).2 := by
  obtain ⟨hinput, heq⟩ := h.input.readLoop (s.killed p) target n
  obtain ⟨ds, -, htaken, -, -⟩ := a.line.read_takes (s.killed p) target n
  unfold State.consoleread Discipline.read
  rw [← h.killed]
  dsimp only
  rw [congrArg Prod.fst heq, congrArg Prod.snd heq]
  refine ⟨⟨hinput, rfl, fun q => ?_, fun q rd hrd hasleep => ?_⟩, rfl⟩
  · by_cases hqp : q = p
    · subst hqp
      simp only [Function.update_self]
      generalize (Line.read (s.killed q) target n a.line).2.2 = out
      cases out <;> rfl
    · simp only [Function.update_of_ne hqp]
      exact h.waiting q
  · by_cases hqp : q = p
    · subst hqp
      simp only [Function.update_self] at hrd
      split at hrd
      · cases hrd
      · next k hk =>
        cases hrd
        exact Line.read_sleep hk
    · simp only [Function.update_of_ne hqp] at hrd
      obtain ⟨hnil, hrest⟩ := h.asleep q rd hrd hasleep
      rw [hnil] at htaken
      exact ⟨(List.append_eq_nil_iff.mp htaken.symm).2, hrest⟩

/-- A process that is asleep would find nothing to read. -/
lemma read_asleep (h : s.Follows a) {p : P} {rd : Reader} (hrd : s.reader p = some rd)
    (hasleep : rd.asleep = true) : a.read p rd.target rd.n = (a, []) := by
  obtain ⟨hnil, hkilled, hn⟩ := h.asleep p rd hrd hasleep
  have hwaiting := h.waiting p
  rw [hrd, Option.map_some] at hwaiting
  obtain ⟨n, hn⟩ := Nat.exists_eq_succ_of_ne_zero hn
  unfold Discipline.read
  rw [← h.killed, hkilled, hn]
  unfold Line.read
  simp only [hnil, Bool.false_eq_true, if_false, outputs, List.map_nil]
  rw [hn] at hwaiting
  rw [← hwaiting, Function.update_eq_self, h.killed]

lemma step (h : s.Follows a) (ev : Event P) :
    (s.step ev).1.Follows (a.step ev).1 ∧ (s.step ev).2 = (a.step ev).2 := by
  cases ev with
  | intr cs => exact ⟨h.consoleintr cs, rfl⟩
  | read p n =>
    have hwaiting := h.waiting p
    unfold State.step Discipline.step
    cases hrd : s.reader p with
    | none =>
      rw [hrd] at hwaiting
      simp only [hrd, hwaiting, Option.map_none]
      exact h.consoleread p _ _
    | some rd =>
      rw [hrd] at hwaiting
      simp only [hrd, hwaiting, Option.map_some]
      exact ⟨h, trivial⟩
  | resume p =>
    have hwaiting := h.waiting p
    unfold State.step Discipline.step
    cases hrd : s.reader p with
    | none =>
      rw [hrd] at hwaiting
      simp only [hrd, hwaiting, Option.map_none]
      exact ⟨h, trivial⟩
    | some rd =>
      rw [hrd] at hwaiting
      simp only [hrd, hwaiting, Option.map_some]
      obtain ⟨target, n, asleep⟩ := rd
      cases asleep with
      | false => exact h.consoleread p target n
      | true =>
        have hsame := h.read_asleep hrd rfl
        dsimp only at hsame ⊢
        rw [hsame]
        exact ⟨h, rfl⟩
  | kill p =>
    refine ⟨⟨h.input, ?_, fun q => ?_, fun q rd hrd hasleep => ?_⟩, rfl⟩
    · show Function.update s.killed p true = Function.update a.killed p true
      rw [h.killed]
    · by_cases hqp : q = p
      · subst hqp
        simp only [State.step, Discipline.step, Function.update_self, h.waiting q, Option.map_map]
        rfl
      · simp only [State.step, Discipline.step, Function.update_of_ne hqp]
        exact h.waiting q
    · by_cases hqp : q = p
      · subst hqp
        simp only [State.step, Function.update_self, Option.map_eq_some_iff] at hrd
        obtain ⟨rd', -, rfl⟩ := hrd
        cases hasleep
      · simp only [State.step, Function.update_of_ne hqp] at hrd ⊢
        exact h.asleep q rd hrd hasleep

lemma run (h : s.Follows a) (evs : List (Event P)) :
    (s.run evs).1.Follows (a.run evs).1 ∧ (s.run evs).2 = (a.run evs).2 := by
  induction evs generalizing s a with
  | nil => exact ⟨h, rfl⟩
  | cons ev evs ih =>
    obtain ⟨hstep, hout⟩ := h.step ev
    obtain ⟨hrun, houts⟩ := ih hstep
    unfold State.run Discipline.run
    exact ⟨hrun, by dsimp only; rw [hout, houts]⟩

end State.Follows

/-- The characters that processes got, in this order. -/
def delivered (outs : List (Output P)) : List UInt8 :=
  outs.filterMap fun
    | .write _ c => some c
    | .ret _ _ => none

omit [DecidableEq P] in
@[simp] lemma delivered_append (o₁ o₂ : List (Output P)) :
    delivered (o₁ ++ o₂) = delivered o₁ ++ delivered o₂ := List.filterMap_append

omit [DecidableEq P] in
lemma delivered_outputs (p : P) (dst : List UInt8) (out : Outcome) :
    delivered (outputs p dst out) = dst := by
  have hwrite : delivered (dst.map (.write p)) = dst := by
    rw [delivered, List.filterMap_map]
    exact List.filterMap_some
  cases out with
  | ret v => rw [outputs, delivered_append, hwrite]; exact List.append_nil dst
  | sleep n => exact hwrite

/-- A stretch of the run keeps the record, and delivers what it takes, without `^D`. -/
structure Discipline.Records (a a' : Discipline P) (outs : List (Output P)) : Prop where
  recorded : a.line.Recorded → a'.line.Recorded
  delivers : ∃ ds, a'.line.taken = a.line.taken ++ ds ∧ delivered outs = ds.filter (· ≠ C 'D')

namespace Discipline

omit [DecidableEq P] in
lemma Records.refl (a : Discipline P) : Records a a [] := ⟨id, [], by simp, rfl⟩

omit [DecidableEq P] in
lemma Records.trans {a' a'' : Discipline P} {o₁ o₂ : List (Output P)} (h₁ : Records a a' o₁)
    (h₂ : Records a' a'' o₂) : Records a a'' (o₁ ++ o₂) := by
  obtain ⟨ds₁, ht₁, hd₁⟩ := h₁.delivers
  obtain ⟨ds₂, ht₂, hd₂⟩ := h₂.delivers
  refine ⟨h₂.recorded ∘ h₁.recorded, ds₁ ++ ds₂, ?_, ?_⟩
  · rw [ht₂, ht₁, List.append_assoc]
  · rw [delivered_append, hd₁, hd₂, List.filter_append]

lemma read_records (a : Discipline P) (p : P) (target n : Nat) :
    Records a (a.read p target n).1 (a.read p target n).2 := by
  obtain ⟨ds, htaken, hcommitted, hlines, hdst⟩ := a.line.read_takes (a.killed p) target n
  refine ⟨fun h => ?_, ds, htaken, ?_⟩
  · unfold Line.Recorded at h ⊢
    show (Line.read (a.killed p) target n a.line).1.lines = _
    rw [hlines, h, hcommitted, ← List.append_assoc, ← htaken]
    rfl
  · show delivered (outputs p _ _) = _
    rw [delivered_outputs, hdst]

omit [DecidableEq P] in
lemma intr_records (a : Discipline P) (cs : List UInt8) :
    Records a { a with line := cs.foldl Line.type a.line } [] := by
  induction cs generalizing a with
  | nil => exact .refl a
  | cons c cs ih =>
    have hone : Records a { a with line := a.line.type c } [] := by
      refine ⟨fun h => h.type c, [], ?_, rfl⟩
      show (a.line.type c).taken = a.line.taken ++ []
      unfold Line.type Line.append Line.commit
      split_ifs <;> simp
    exact hone.trans (ih { a with line := a.line.type c })

lemma step_records (a : Discipline P) (ev : Event P) : Records a (a.step ev).1 (a.step ev).2 := by
  cases ev with
  | intr cs => exact a.intr_records cs
  | read p n =>
    simp only [Discipline.step]
    split
    · exact a.read_records p _ _
    · exact .refl a
  | resume p =>
    simp only [Discipline.step]
    split
    · exact a.read_records p _ _
    · exact .refl a
  | kill p => exact ⟨id, [], by simp [Discipline.step], rfl⟩

lemma run_records (a : Discipline P) (evs : List (Event P)) :
    Records a (a.run evs).1 (a.run evs).2 := by
  induction evs generalizing a with
  | nil => exact .refl a
  | cons ev evs ih => exact (a.step_records ev).trans (ih _)

end Discipline

/-- Whatever is typed, in whatever portions, and whoever reads when and how much: the processes see
what the abstract discipline shows them; the three indices stay in order within one length of the
buffer, also after they have overflowed; and the characters that have been read, together with those
still in the queue, are all that were ever finished, in the same order. -/
theorem console_refines_discipline (evs : List (Event P)) :
    (State.init.run evs).2 = (Discipline.init.run evs).2 ∧
    (((State.init.run evs).1.input.w - (State.init.run evs).1.input.r).toNat ≤
        ((State.init.run evs).1.input.e - (State.init.run evs).1.input.r).toNat ∧
      ((State.init.run evs).1.input.e - (State.init.run evs).1.input.r).toNat ≤ INPUT_BUF) ∧
    (Discipline.init.run evs).1.line.lines =
      (Discipline.init.run evs).1.line.taken ++ (Discipline.init.run evs).1.line.committed ∧
    delivered (State.init.run evs).2 =
      (Discipline.init.run evs).1.line.taken.filter (· ≠ C 'D') := by
  obtain ⟨hfollows, houts⟩ := State.follows_init.run evs
  have hrecords := Discipline.init.run_records evs
  obtain ⟨ds, htaken, hdelivered⟩ := hrecords.delivers
  refine ⟨houts, ⟨?_, ?_⟩, hrecords.recorded rfl, ?_⟩
  · rw [hfollows.input.toNat_w, hfollows.input.toNat_e]
    exact Nat.le_add_right _ _
  · rw [hfollows.input.toNat_e]
    exact hfollows.input.length_le
  · rw [houts, hdelivered, htaken]
    rfl

end Xv6.Console
