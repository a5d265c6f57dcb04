import BlockLink.Upload

/-!
# `BlockLink/Proofs/Upload/Step.lean` — what the channel can do

Sending a program has four outcomes and an acknowledgement has four. They are stated here, each with
what has to hold for it and the channel it leaves, so that no other proof opens the two functions:
one that is about all outcomes goes through the cases of `Sends` or `Answers`. Acknowledged often
enough, an upload comes to its end: the last section says with which frames.
-/

set_option autoImplicit false

namespace BlockLink.Upload

section

variable {u : Upload} {t : Transfer} {program : String}

theorem send_of_current (hu : u.current = some t) (hp : t.program = program) :
    u.send program = (.skipped, { u with queued := none }) := by
  simp only [send, hu, hp, if_true]

theorem send_of_other (hu : u.current = some t) (hp : t.program ≠ program) :
    u.send program = (.queued (Transfer.ofProgram program u.chunkSize).pending.length,
      { u with queued := some (Transfer.ofProgram program u.chunkSize) }) := by
  simp only [send, hu, hp, if_false]

theorem send_of_unchanged (hu : u.current = none) (hp : u.lastSent = some program) :
    u.send program = (.skipped, u) := by
  simp only [send, hu, hp, if_true]

theorem send_of_idle (hu : u.current = none) (hp : u.lastSent ≠ some program) :
    u.send program = (.started (Transfer.ofProgram program u.chunkSize).pending.length,
      { u with current := some (Transfer.ofProgram program u.chunkSize) }) := by
  simp only [send, hu, hp, if_false]

theorem chunkReady_of_idle (hu : u.current = none) : u.chunkReady = (none, u) := by
  simp only [chunkReady, hu]

theorem chunkReady_of_queued {next : Transfer} (hu : u.current = some t)
    (hq : u.queued = some next) :
    u.chunkReady = (some .restart, { u with current := some next, queued := none }) := by
  simp only [chunkReady, hu, hq]

theorem chunkReady_of_pending {chunk : List UInt8} {rest : List (List UInt8)}
    (hu : u.current = some t) (hq : u.queued = none) (hp : t.pending = chunk :: rest) :
    u.chunkReady
      = (some (.chunk chunk), { u with current := some { t with pending := rest } }) := by
  simp only [chunkReady, hu, hq, hp]

theorem chunkReady_of_done (hu : u.current = some t) (hq : u.queued = none) (hp : t.pending = []) :
    u.chunkReady = (some .trailer, { u with current := none, lastSent := some t.program }) := by
  simp only [chunkReady, hu, hq, hp]

end

/-- The outcomes of sending a program. -/
inductive Sends (u : Upload) (program : String) : SendStatus × Upload → Prop where
  | current {t : Transfer} (hu : u.current = some t) (hp : t.program = program) :
      Sends u program (.skipped, { u with queued := none })
  | other {t : Transfer} (hu : u.current = some t) (hp : t.program ≠ program) :
      Sends u program (.queued (Transfer.ofProgram program u.chunkSize).pending.length,
        { u with queued := some (Transfer.ofProgram program u.chunkSize) })
  | unchanged (hu : u.current = none) (hp : u.lastSent = some program) :
      Sends u program (.skipped, u)
  | idle (hu : u.current = none) (hp : u.lastSent ≠ some program) :
      Sends u program (.started (Transfer.ofProgram program u.chunkSize).pending.length,
        { u with current := some (Transfer.ofProgram program u.chunkSize) })

/-- There are no other outcomes. -/
theorem sends (u : Upload) (program : String) : Sends u program (u.send program) := by
  cases hu : u.current with
  | some t =>
    by_cases hp : t.program = program
    · rw [send_of_current hu hp]
      exact .current hu hp
    · rw [send_of_other hu hp]
      exact .other hu hp
  | none =>
    by_cases hp : u.lastSent = some program
    · rw [send_of_unchanged hu hp]
      exact .unchanged hu hp
    · rw [send_of_idle hu hp]
      exact .idle hu hp

/-- A program that is not skipped is on its way, or waits for one that is. -/
theorem isUploading_send {u : Upload} {program : String} (h : (u.send program).1 ≠ .skipped) :
    (u.send program).2.isUploading = true := by
  have hs := u.sends program
  generalize u.send program = r at hs h ⊢
  cases hs with
  | current hu hp | unchanged hu hp => exact absurd rfl h
  | other hu hp => simp [isUploading, hu]
  | idle hu hp => simp [isUploading]

/-- The answers to an acknowledgement. -/
inductive Answers (u : Upload) : Option Frame × Upload → Prop where
  | idle (hu : u.current = none) : Answers u (none, u)
  | queued {t next : Transfer} (hu : u.current = some t) (hq : u.queued = some next) :
      Answers u (some .restart, { u with current := some next, queued := none })
  | pending {t : Transfer} {chunk : List UInt8} {rest : List (List UInt8)} (hu : u.current = some t)
      (hq : u.queued = none) (hp : t.pending = chunk :: rest) :
      Answers u (some (.chunk chunk), { u with current := some { t with pending := rest } })
  | done {t : Transfer} (hu : u.current = some t) (hq : u.queued = none) (hp : t.pending = []) :
      Answers u (some .trailer, { u with current := none, lastSent := some t.program })

/-- There are no other answers. -/
theorem answers (u : Upload) : Answers u u.chunkReady := by
  cases hu : u.current with
  | none =>
    rw [chunkReady_of_idle hu]
    exact .idle hu
  | some t =>
    cases hq : u.queued with
    | some next =>
      rw [chunkReady_of_queued hu hq]
      exact .queued hu hq
    | none =>
      cases hp : t.pending with
      | cons chunk rest =>
        rw [chunkReady_of_pending hu hq hp]
        exact .pending hu hq hp
      | nil =>
        rw [chunkReady_of_done hu hq hp]
        exact .done hu hq hp

/-! ## Waiting programs -/

/-- Only an upload has a program waiting for its turn. -/
def Settled (u : Upload) : Prop :=
  u.current = none → u.queued = none

/-- Sending lets a program wait only behind another one. -/
theorem Settled.send {u : Upload} (h : u.Settled) (program : String) :
    (u.send program).2.Settled := by
  have hs := u.sends program
  generalize u.send program = r at hs ⊢
  cases hs with
  | current hu hp => exact fun _ => rfl
  | other hu hp => exact fun hc => absurd (hu.symm.trans hc) (by simp)
  | unchanged hu hp => exact h
  | idle hu hp => exact fun _ => h hu

theorem Settled.chunkReady {u : Upload} (h : u.Settled) : u.chunkReady.2.Settled := by
  have hs := u.answers
  generalize u.chunkReady = r at hs ⊢
  cases hs with
  | idle hu => exact h
  | queued hu hq => exact fun _ => rfl
  | pending hu hq hp | done hu hq hp => exact fun _ => hq

/-! ## To the end of an upload -/

section

variable {u : Upload} {t : Transfer}

theorem drainFor_of_idle (hu : u.current = none) (n : Nat) : drainFor n u = ([], u) := by
  cases n with
  | zero => rfl
  | succ n => simp only [drainFor, chunkReady_of_idle hu]

theorem drainFor_succ {frame : Frame} {u' : Upload} (h : u.chunkReady = (some frame, u'))
    (n : Nat) :
    drainFor (n + 1) u = (frame :: (drainFor n u').1, (drainFor n u').2) := by
  simp only [drainFor, h]

/-- What one acknowledgement leaves is what the others start from. -/
theorem drainFor_chunkReady (u : Upload) (n : Nat) :
    (drainFor n u.chunkReady.2).2 = (drainFor (n + 1) u).2 := by
  cases hu : u.current with
  | none => rw [drainFor_of_idle hu, chunkReady_of_idle hu, drainFor_of_idle hu]
  | some t =>
    obtain ⟨frame, u', h⟩ : ∃ frame u', u.chunkReady = (some frame, u') := by
      have hs := u.answers
      generalize u.chunkReady = r at hs ⊢
      cases hs with
      | idle hn => exact absurd (hu.symm.trans hn) (by simp)
      | queued _ _ | pending _ _ _ | done _ _ _ => exact ⟨_, _, rfl⟩
    rw [drainFor_succ h, h]

/-- With nothing waiting, all chunks and the trailer are sent. -/
theorem drainFor_of_current (hu : u.current = some t) (hq : u.queued = none) :
    drainFor (t.pending.length + 1) u = (t.pending.map .chunk ++ [.trailer],
      { u with current := none, lastSent := some t.program }) := by
  generalize hp : t.pending = pending
  induction pending generalizing u t with
  | nil => rw [drainFor_succ (chunkReady_of_done hu hq hp)]; rfl
  | cons chunk rest ih =>
    have hrest := ih (u := { u with current := some { t with pending := rest } }) rfl hq rfl
    rw [List.length_cons, drainFor_succ (chunkReady_of_pending hu hq hp), hrest]
    rfl

theorem drain_of_current (hu : u.current = some t) (hq : u.queued = none) :
    u.drain = (t.pending.map .chunk ++ [.trailer],
      { u with current := none, lastSent := some t.program }) := by
  have hleft : u.stepsLeft = t.pending.length + 1 := by simp only [stepsLeft, hu, hq]
  rw [drain, hleft, drainFor_of_current hu hq]

theorem drain_of_queued {next : Transfer} (hu : u.current = some t) (hq : u.queued = some next) :
    u.drain = (.restart :: (next.pending.map .chunk ++ [.trailer]),
      { u with current := none, queued := none, lastSent := some next.program }) := by
  have hleft : u.stepsLeft = next.pending.length + 1 + 1 := by simp only [stepsLeft, hu, hq]
  rw [drain, hleft, drainFor_succ (chunkReady_of_queued hu hq), drainFor_of_current rfl rfl]

/-- An upload ends with the trailer. -/
theorem getLast?_drain (h : u.isUploading = true) : u.drain.1.getLast? = some .trailer := by
  obtain ⟨t, hu⟩ := Option.isSome_iff_exists.mp h
  cases hq : u.queued with
  | none => simp [drain_of_current hu hq]
  | some next => simp [drain_of_queued hu hq, List.getLast?_cons]

end

end BlockLink.Upload
