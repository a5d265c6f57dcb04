import BlockLink.Proofs.Upload.Receiver
import BlockLink.Proofs.Upload.Step

/-!
# `BlockLink/Proofs/Upload/InStep.lean` — the channel and the board stay in step

The channel decides what to write from its own state alone; the board decides what a byte means from
what it has read. `InStep` is the relation that ties the two: the board is in a file exactly while a
program is on its way, it has received what is no longer pending, and what was last sent in full is
what it last ran. Every operation of the channel keeps it, whatever the size of chunks and whatever
programs come in between, so the bytes on the wire always mean to the board what the channel meant.
-/

set_option autoImplicit false

namespace BlockLink

/-! ## Chunks -/

theorem flatten_chunksOf {α : Type} (size : Nat) (l : List α) : (chunksOf size l).flatten = l := by
  fun_induction chunksOf size l with
  | case1 => rfl
  | case2 a rest ih => simp [ih]

/-- No chunk is empty, and none is longer than its size. -/
theorem length_of_mem_chunksOf {α : Type} {size : Nat} (hsize : 0 < size) {l c : List α}
    (hc : c ∈ chunksOf size l) : 0 < c.length ∧ c.length ≤ size := by
  fun_induction chunksOf size l with
  | case1 => exact absurd hc (List.not_mem_nil)
  | case2 a rest ih =>
    rcases List.mem_cons.mp hc with rfl | hmem
    · simp only [List.length_cons, List.length_take]
      omega
    · exact ih hmem

/-! ## What can be done with a channel -/

namespace Upload

/-- An operation on the channel. -/
inductive Op where
  | send (program : String)
  /-- The board asked for the next step. -/
  | chunkReady
  | forgetSent
  | cancel
  | forget
  deriving DecidableEq, Repr

/-- The channel after an operation. -/
def apply (u : Upload) : Op → Upload
  | .send program => (u.send program).2
  | .chunkReady => u.chunkReady.2
  | .forgetSent => u.forgetSent
  | .cancel => u.cancel
  | .forget => u.forget

/-- The frame that is written because of an operation. -/
def written (u : Upload) : Op → Option Frame
  | .send program =>
    match (u.send program).1 with
    | .started _ => some .uploadStart
    | _ => none
  | .chunkReady => u.chunkReady.1
  | _ => none

/-- An upload is not abandoned half way: the board would go on waiting for its rest. -/
def Allows (u : Upload) : Op → Prop
  | .cancel | .forget => u.isUploading = false
  | _ => True

instance (u : Upload) : (op : Op) → Decidable (u.Allows op)
  | .cancel | .forget => inferInstanceAs (Decidable (u.isUploading = false))
  | .send _ | .chunkReady | .forgetSent => isTrue trivial

/-- The channel after operations in order. -/
def applyAll (u : Upload) (ops : List Op) : Upload :=
  ops.foldl apply u

/-- The bytes that operations in order put on the wire. -/
def wire (u : Upload) : List Op → List UInt8
  | [] => []
  | op :: ops => (u.written op).elim [] Frame.toBytes ++ (u.apply op).wire ops

/-- Every operation is allowed when its turn comes. -/
def AllowsAll (u : Upload) : List Op → Prop
  | [] => True
  | op :: ops => u.Allows op ∧ (u.apply op).AllowsAll ops

instance decidableAllowsAll (u : Upload) : (ops : List Op) → Decidable (u.AllowsAll ops)
  | [] => isTrue trivial
  | op :: ops =>
    have := decidableAllowsAll (u.apply op) ops
    inferInstanceAs (Decidable (u.Allows op ∧ (u.apply op).AllowsAll ops))

/-- The program that was sent last, after one more operation. -/
def Op.newest (before : Option String) : Op → Option String
  | .send program => some program
  | _ => before

/-- The program of the last `send` among operations, if there is one. -/
def latest (ops : List Op) : Option String :=
  ops.foldl Op.newest none

theorem written_send {u : Upload} {program : String} {frame : Frame}
    (h : u.written (.send program) = some frame) : frame = .uploadStart := by
  simp only [written] at h
  split at h
  · exact (Option.some.inj h).symm
  · exact absurd h (by simp)

end Upload

/-- A frame of an upload reaches the board where the board takes it for what it is. -/
def Frame.Expected (b : Receiver) : Frame → Prop
  | .uploadStart => b.AtConsole
  | .chunk _ | .restart | .trailer => b.AtRecord
  | _ => False

/-! ## The relation -/

/-- Chunks that a frame can carry. -/
def Sendable (chunks : List (List UInt8)) : Prop :=
  ∀ c ∈ chunks, 0 < c.length ∧ c.length < 256

/-- A channel and a board agree; `latest` is the program that `send` was last called with. -/
structure InStep (u : Upload) (b : Receiver) (latest : Option String) : Prop where
  size : 0 < u.chunkSize ∧ u.chunkSize ≤ Frame.maxChunkSize
  console : b.console = []
  boundary : b.remaining = 0
  mode : b.receiving = u.isUploading
  idle : u.Settled
  /-- The board has what is no longer pending. -/
  partly : ∀ t, u.current = some t →
    b.file ++ t.pending.flatten = textBytes t.program ∧ Sendable t.pending
  /-- Nothing of a program that waits has been sent. -/
  waiting : ∀ t, u.queued = some t → t.pending.flatten = textBytes t.program ∧ Sendable t.pending
  /-- What will be run in the end is what was asked for last. -/
  goal : ∀ t, u.current = some t → latest = some (u.queued.getD t).program
  ran : ∀ p, u.lastSent = some p → b.ran.getLast? = some (textBytes p)
  stored : ∀ p, u.current = none → u.lastSent = some p → b.stored = some (textBytes p)

namespace InStep

variable {u : Upload} {b : Receiver} {l : Option String}

theorem start (chunkSize : Nat) : InStep (Upload.new chunkSize) Receiver.fresh none where
  size := ⟨by simp only [Upload.new]; omega, by simp only [Upload.new, Frame.maxChunkSize]; omega⟩
  console := rfl
  boundary := rfl
  mode := rfl
  idle := fun _ => rfl
  partly := fun _ ht => absurd ht (by simp [Upload.new])
  waiting := fun _ ht => absurd ht (by simp [Upload.new])
  goal := fun _ ht => absurd ht (by simp [Upload.new])
  ran := fun _ hp => absurd hp (by simp [Upload.new])
  stored := fun _ _ hp => absurd hp (by simp [Upload.new])

theorem atConsole (h : InStep u b l) (hu : u.current = none) : b.AtConsole :=
  ⟨by rw [h.mode, Upload.isUploading, hu]; rfl, h.boundary⟩

theorem atRecord (h : InStep u b l) {t : Transfer} (hu : u.current = some t) : b.AtRecord :=
  ⟨by rw [h.mode, Upload.isUploading, hu]; rfl, h.boundary⟩

/-- A program is cut into chunks that frames can carry, and that are all of it. -/
theorem cut (h : InStep u b l) (program : String) :
    (Transfer.ofProgram program u.chunkSize).pending.flatten = textBytes program ∧
      Sendable (Transfer.ofProgram program u.chunkSize).pending := by
  refine ⟨flatten_chunksOf _ _, fun c hc => ?_⟩
  obtain ⟨hpos, hle⟩ := length_of_mem_chunksOf h.size.1 hc
  have hmax : u.chunkSize ≤ 254 := h.size.2
  exact ⟨hpos, by omega⟩

/-! ## One operation

One lemma per outcome of the channel, each with the bytes that outcome puts on the wire. -/

/-- A program that comes while another one is on its way waits, or is that very one. -/
theorem send_during (h : InStep u b l) {t : Transfer} (hu : u.current = some t) (program : String) :
    InStep (u.send program).2 b (some program) ∧ u.written (.send program) = none := by
  by_cases hp : t.program = program
  -- The program is the one on its way, and what waited is dropped.
  · have hs := Upload.send_of_current hu hp
    refine ⟨?_, by simp [Upload.written, hs]⟩
    rw [hs]
    exact { size := h.size, console := h.console, boundary := h.boundary, mode := h.mode,
            idle := fun _ => rfl, partly := h.partly,
            waiting := fun _ ht => absurd ht (by simp),
            goal := fun t' ht => by
              obtain rfl : t = t' := Option.some.inj (hu.symm.trans ht)
              simp [hp],
            ran := h.ran, stored := h.stored }
  -- It waits, and the board is not told yet.
  · have hs := Upload.send_of_other hu hp
    refine ⟨?_, by simp [Upload.written, hs]⟩
    rw [hs]
    exact { size := h.size, console := h.console, boundary := h.boundary, mode := h.mode,
            idle := fun hn => absurd (hu.symm.trans hn) (by simp), partly := h.partly,
            waiting := fun t' ht => by
              obtain rfl := Option.some.inj ht
              exact h.cut program,
            goal := fun _ _ => by simp [Transfer.ofProgram],
            ran := h.ran, stored := h.stored }

/-- A program that comes while nothing is on its way is what the board has, or is started. -/
theorem send_idle (h : InStep u b l) (hu : u.current = none) (program : String) :
    InStep (u.send program).2 (b.feed ((u.written (.send program)).elim [] Frame.toBytes))
      (some program) := by
  by_cases hp : u.lastSent = some program
  · have hs := Upload.send_of_unchanged hu hp
    have hw : u.written (.send program) = none := by simp [Upload.written, hs]
    rw [hs, hw]
    exact { h with goal := fun t ht => absurd (hu.symm.trans ht) (by simp) }
  · have hs := Upload.send_of_idle hu hp
    have hw : u.written (.send program) = some .uploadStart := by simp [Upload.written, hs]
    -- The console line makes the board receive, with nothing in its file.
    have hb : b.feed (Option.elim (some Frame.uploadStart) [] Frame.toBytes)
        = { b with receiving := true, file := [] } :=
      Receiver.feed_uploadStart (h.atConsole hu) h.console
    rw [hs, hw, hb]
    exact { size := h.size, console := h.console, boundary := h.boundary, mode := rfl,
            idle := fun _ => h.idle hu,
            partly := fun t ht => by
              obtain rfl := Option.some.inj ht
              exact h.cut program,
            waiting := h.waiting,
            goal := fun t ht => by
              obtain rfl := Option.some.inj ht
              simp [h.idle hu, Transfer.ofProgram],
            ran := h.ran, stored := fun _ hn => absurd hn (by simp) }

/-- A program waits: the board drops what it has of the other one, and receives again. -/
theorem chunkReady_restart (h : InStep u b l) {t next : Transfer} (hu : u.current = some t)
    (hq : u.queued = some next) :
    u.chunkReady.1 = some .restart ∧ InStep u.chunkReady.2 (b.feed Frame.restart.toBytes) l ∧
      (b.feed Frame.restart.toBytes).ran = b.ran := by
  have hrec := h.atRecord hu
  rw [Upload.chunkReady_of_queued hu hq, Receiver.feed_restart hrec h.console]
  refine ⟨rfl, ?_, rfl⟩
  exact { size := h.size, console := h.console, boundary := h.boundary, mode := hrec.1,
          idle := fun _ => rfl,
          partly := fun t' ht => by
            obtain rfl := Option.some.inj ht
            exact h.waiting next hq,
          waiting := fun _ ht => absurd ht (by simp),
          goal := fun t' ht => by
            obtain rfl := Option.some.inj ht
            have hg := h.goal t hu
            simpa [hq] using hg,
          ran := h.ran, stored := fun _ hn => absurd hn (by simp) }

/-- Part of the program is still pending: the board has one more chunk. -/
theorem chunkReady_chunk (h : InStep u b l) {t : Transfer} (hu : u.current = some t)
    (hq : u.queued = none) {chunk : List UInt8} {rest : List (List UInt8)}
    (ht : t.pending = chunk :: rest) :
    u.chunkReady.1 = some (.chunk chunk) ∧
      InStep u.chunkReady.2 (b.feed (Frame.chunk chunk).toBytes) l ∧
      (b.feed (Frame.chunk chunk).toBytes).ran = b.ran := by
  have hrec := h.atRecord hu
  obtain ⟨hfile, hsend⟩ := h.partly t hu
  rw [ht] at hfile hsend
  obtain ⟨hpos, hlt⟩ := hsend chunk List.mem_cons_self
  rw [Upload.chunkReady_of_pending hu hq ht, Receiver.feed_chunk hrec hpos hlt]
  refine ⟨rfl, ?_, rfl⟩
  exact { size := h.size, console := h.console, boundary := h.boundary, mode := hrec.1,
          idle := fun hn => absurd hn (by simp),
          partly := fun t' ht' => by
            obtain rfl := Option.some.inj ht'
            refine ⟨?_, fun c hc => hsend c (List.mem_cons_of_mem _ hc)⟩
            simpa [List.append_assoc] using hfile,
          waiting := h.waiting,
          goal := fun t' ht' => by
            obtain rfl := Option.some.inj ht'
            have hg := h.goal t hu
            simpa [hq] using hg,
          ran := h.ran, stored := fun _ hn => absurd hn (by simp) }

/-- Nothing is pending: the board has the whole program, and runs it. -/
theorem chunkReady_trailer (h : InStep u b l) {t : Transfer} (hu : u.current = some t)
    (hq : u.queued = none) (ht : t.pending = []) :
    u.chunkReady.1 = some .trailer ∧ InStep u.chunkReady.2 (b.feed Frame.trailer.toBytes) l ∧
      l = some t.program ∧ (b.feed Frame.trailer.toBytes).ran = b.ran ++ [textBytes t.program] := by
  have hrec := h.atRecord hu
  -- Nothing is pending, so the board has the whole program, and no other one is waited for.
  have hfile : b.file = textBytes t.program := by
    have hp := (h.partly t hu).1
    simpa [ht] using hp
  have hgoal : l = some t.program := by
    have hg := h.goal t hu
    simpa [hq] using hg
  rw [Upload.chunkReady_of_done hu hq ht, Receiver.feed_trailer hrec h.console, hfile]
  refine ⟨rfl, ?_, hgoal, rfl⟩
  exact { size := h.size, console := h.console, boundary := h.boundary, mode := rfl,
          idle := fun _ => hq,
          partly := fun _ hn => absurd hn (by simp), waiting := h.waiting,
          goal := fun _ hn => absurd hn (by simp),
          ran := fun p hp => by
            obtain rfl := Option.some.inj hp
            simp,
          stored := fun p _ hp => by
            obtain rfl := Option.some.inj hp
            rfl }

/-- The board asks for the next step: there is none, or it is one of the three above. -/
theorem chunkReady_cases (h : InStep u b l) :
    (u.chunkReady = (none, u)) ∨
      ∃ t frame, u.current = some t ∧ u.chunkReady.1 = some frame ∧ frame.Expected b ∧
        InStep u.chunkReady.2 (b.feed frame.toBytes) l ∧
        ((frame = .trailer ∧ l = some t.program ∧
            (b.feed frame.toBytes).ran = b.ran ++ [textBytes t.program]) ∨
          (frame ≠ .trailer ∧ (b.feed frame.toBytes).ran = b.ran)) := by
  cases hu : u.current with
  | none => exact Or.inl (Upload.chunkReady_of_idle hu)
  | some t =>
    refine Or.inr ⟨t, ?_⟩
    have hrec := h.atRecord hu
    cases hq : u.queued with
    | some next =>
      obtain ⟨hf, hstep, hran⟩ := h.chunkReady_restart hu hq
      exact ⟨_, rfl, hf, hrec, hstep, Or.inr ⟨by simp, hran⟩⟩
    | none =>
      cases hp : t.pending with
      | cons chunk rest =>
        obtain ⟨hf, hstep, hran⟩ := h.chunkReady_chunk hu hq hp
        exact ⟨_, rfl, hf, hrec, hstep, Or.inr ⟨by simp, hran⟩⟩
      | nil =>
        obtain ⟨hf, hstep, hl, hran⟩ := h.chunkReady_trailer hu hq hp
        exact ⟨_, rfl, hf, hrec, hstep, Or.inl ⟨rfl, hl, hran⟩⟩

theorem send (h : InStep u b l) (program : String) :
    InStep (u.send program).2 (b.feed ((u.written (.send program)).elim [] Frame.toBytes))
      (some program) := by
  cases hu : u.current with
  | none => exact h.send_idle hu program
  | some t =>
    obtain ⟨hstep, hw⟩ := h.send_during hu program
    rw [hw]
    exact hstep

/-- Giving up where nothing is on its way. -/
theorem cancel (h : InStep u b l) (hu : u.isUploading = false) : InStep u.cancel b l := by
  -- Nothing is on its way and nothing waits, so there is nothing to abandon.
  have hc : u.current = none := by simpa [Upload.isUploading] using hu
  have hq := h.idle hc
  have hsame : u.cancel = u := by
    obtain ⟨size, current, queued, lastSent⟩ := u
    obtain rfl : current = none := hc
    obtain rfl : queued = none := hq
    rfl
  rw [hsame]
  exact h

theorem forgetSent (h : InStep u b l) : InStep u.forgetSent b l :=
  { h with
    ran := fun _ hp => absurd hp (by simp [Upload.forgetSent])
    stored := fun _ _ hp => absurd hp (by simp [Upload.forgetSent]) }

theorem step (h : InStep u b l) (op : Upload.Op) (hop : u.Allows op) :
    InStep (u.apply op) (b.feed ((u.written op).elim [] Frame.toBytes)) (op.newest l) := by
  cases op with
  | send program => exact h.send program
  | chunkReady =>
    rcases h.chunkReady_cases with hnone | ⟨t, frame, -, hf, -, hstep, -⟩
    · simp only [Upload.apply, Upload.written, hnone]
      exact h
    · simp only [Upload.apply, Upload.written, hf]
      exact hstep
  | forgetSent => exact h.forgetSent
  | cancel => exact h.cancel hop
  | forget => exact (h.cancel hop).forgetSent

theorem run (h : InStep u b l) {ops : List Upload.Op} (hops : u.AllowsAll ops) :
    InStep (u.applyAll ops) (b.feed (u.wire ops)) (ops.foldl Upload.Op.newest l) := by
  induction ops generalizing u b l with
  | nil => exact h
  | cons op ops ih =>
    obtain ⟨hop, hrest⟩ := hops
    rw [Upload.wire, Receiver.feed_append]
    exact ih (h.step op hop) hrest

/-! ## What the board makes of a frame, and of none -/

/-- What is written reaches the board where the board takes it for what it is. -/
theorem expected (h : InStep u b l) {op : Upload.Op} {frame : Frame}
    (hw : u.written op = some frame) : frame.Expected b := by
  cases op with
  | send program =>
    cases hu : u.current with
    | some t =>
      rw [(h.send_during hu program).2] at hw
      exact absurd hw (by simp)
    | none =>
      rw [Upload.written_send hw]
      exact h.atConsole hu
  | chunkReady =>
    rcases h.chunkReady_cases with hnone | ⟨t, frame', -, hf, hexp, -⟩
    · simp only [Upload.written, hnone] at hw
      exact absurd hw (by simp)
    · obtain rfl : frame' = frame := Option.some.inj (hf.symm.trans hw)
      exact hexp
  | forgetSent | cancel | forget => exact absurd hw (by simp [Upload.written])

/-- The trailer is the only frame that makes the board run a file, and that file is the program
asked for last. -/
theorem runs (h : InStep u b l) {op : Upload.Op} {frame : Frame} (hw : u.written op = some frame) :
    (frame = .trailer ∧ ∃ p, l = some p ∧ (b.feed frame.toBytes).ran = b.ran ++ [textBytes p]) ∨
      (frame ≠ .trailer ∧ (b.feed frame.toBytes).ran = b.ran) := by
  cases op with
  | send program =>
    have hexp := h.expected hw
    obtain rfl := Upload.written_send hw
    refine Or.inr ⟨by simp, ?_⟩
    rw [Receiver.feed_uploadStart hexp h.console]
  | chunkReady =>
    rcases h.chunkReady_cases with hnone | ⟨t, frame', -, hf, -, -, hran⟩
    · simp only [Upload.written, hnone] at hw
      exact absurd hw (by simp)
    · obtain rfl : frame' = frame := Option.some.inj (hf.symm.trans hw)
      rcases hran with ⟨ht, hl, hran⟩ | hran
      · exact Or.inl ⟨ht, t.program, hl, hran⟩
      · exact Or.inr hran
  | forgetSent | cancel | forget => exact absurd hw (by simp [Upload.written])

/-- A program is skipped only if it is on its way, or is the file that the board holds and was the
last to run. -/
theorem skipped (h : InStep u b l) {program : String} (hs : (u.send program).1 = .skipped) :
    (∃ t, u.current = some t ∧ t.program = program) ∨
      (u.current = none ∧ b.stored = some (textBytes program) ∧
        b.ran.getLast? = some (textBytes program)) := by
  have hsends := u.sends program
  generalize u.send program = r at hsends hs
  cases hsends with
  | current hu hp => exact Or.inl ⟨_, hu, hp⟩
  | other hu hp => exact absurd hs (by simp)
  | unchanged hu hp => exact Or.inr ⟨hu, h.stored program hu hp, h.ran program hp⟩
  | idle hu hp => exact absurd hs (by simp)

end InStep

/-- The channel and a board that was just switched on stay in step over every run. Before any
operation, whatever came before it: the board receives exactly while a program is on its way, and
acknowledging to the end brings the trailer; a frame that is written reaches the board where it is
expected; a trailer makes it run the program of the last `send` byte for byte, and no other frame
makes it run anything; and sending a program puts one on its way, unless the program is skipped, and
then it is on its way already or is the file the board holds and ran last. -/
theorem upload_in_step (chunkSize : Nat) (ops : List Upload.Op) (op : Upload.Op)
    (hops : (Upload.new chunkSize).AllowsAll ops) :
    let u := (Upload.new chunkSize).applyAll ops
    let b := Receiver.fresh.feed ((Upload.new chunkSize).wire ops)
    b.receiving = u.isUploading ∧
      (u.isUploading = true → u.drain.1.getLast? = some .trailer) ∧
      (∀ frame, u.written op = some frame → frame.Expected b) ∧
      (u.written op = some .trailer → ∃ p, Upload.latest ops = some p ∧
        (b.feed Frame.trailer.toBytes).ran = b.ran ++ [textBytes p]) ∧
      (∀ frame, u.written op = some frame → frame ≠ .trailer →
        (b.feed frame.toBytes).ran = b.ran) ∧
      (∀ p, (u.send p).1 ≠ .skipped → (u.send p).2.isUploading = true) ∧
      ∀ p, (u.send p).1 = .skipped →
        (∃ t, u.current = some t ∧ t.program = p) ∨
          (u.current = none ∧ b.stored = some (textBytes p) ∧
            b.ran.getLast? = some (textBytes p)) := by
  intro u b
  have h : InStep u b (Upload.latest ops) := (InStep.start chunkSize).run hops
  refine ⟨h.mode, Upload.getLast?_drain, fun frame hw => h.expected hw, fun hw => ?_,
    fun frame hw hne => ?_, fun p => Upload.isUploading_send, fun p hs => h.skipped hs⟩
  · rcases h.runs hw with ⟨-, hrun⟩ | ⟨hne, -⟩
    · exact hrun
    · exact absurd rfl hne
  · rcases h.runs hw with ⟨heq, -⟩ | ⟨-, hran⟩
    · exact absurd heq hne
    · exact hran

/-- A program that is replaced half way, in chunks of one byte: at the trailer the board runs the
second one. -/
theorem upload_in_step_replaced :
    let ops : List Upload.Op := [.forget, .send "ab", .chunkReady, .send "λ!", .chunkReady,
      .chunkReady, .chunkReady, .chunkReady]
    let b := Receiver.fresh.feed ((Upload.new 0).wire ops)
    (Upload.new 0).AllowsAll ops ∧
      ((Upload.new 0).applyAll ops).written .chunkReady = some .trailer ∧
      Frame.trailer.Expected b ∧
      ∃ p, Upload.latest ops = some p ∧
        (b.feed Frame.trailer.toBytes).ran = b.ran ++ [textBytes p] := by
  intro ops b
  have hops : (Upload.new 0).AllowsAll ops := by decide +kernel
  have hw : ((Upload.new 0).applyAll ops).written .chunkReady = some .trailer := by decide +kernel
  obtain ⟨-, -, hexp, htrailer, -⟩ := upload_in_step 0 ops .chunkReady hops
  exact ⟨hops, hw, hexp _ hw, htrailer hw⟩

end BlockLink
