import ImageApp.Server.Senders

/-!
# A buffer in pieces

`write_block` adds the result of a call of `write` to the buffer and subtracts it from the size, and
then adds and subtracts it once more in the arguments of the next call. The result is also carried
on when it is the -1 of `EAGAIN`.

`Halves` says which results are harmless: a call that takes all that is left, or one that takes
exactly half of it, because the next call is then for no bytes at the end of the buffer and its
result of 0 sets the arguments right. After any other result the loop is `Astray`: its bytes are no
longer the first ones of the buffer, or it is about to write in front of where it has come to. It
stays so (`astray_or_ended`), and it ends with other bytes than those of the buffer, or without end
(`writesBlock_iff`).
-/

set_option autoImplicit false
set_option relaxedAutoImplicit false

namespace ImageApp.Responses

open Foundations.Extents Foundations.LoopRuns Server Server.Senders

/-- Calls of `write` that do not fail: one accepts at least one byte and not more than it is asked
for, or returns -1 with `EAGAIN`. A call for no bytes accepts none, and a result is a `ssize_t`. -/
def PartialWrites (write : Write) : Prop :=
  ∀ call start count, write call start count = .again ∨
    ∃ v, write call start count = .accepted v ∧ v ≤ count ∧ v < 2 ^ 63 ∧ (0 < count → 1 ≤ v)

/-- From some iteration on no call of `write` returns -1 with `EAGAIN`. -/
def FinitelyOftenAgain (write : Write) (size : ℕ) : Prop :=
  ∃ n, ∀ k s, n ≤ k → writeBlock write (startBlock size) k = .running s → 0 < s.size →
    write s.calls s.start s.count ≠ .again

/-- `write_block` writes a buffer of the given size exactly. -/
structure WritesBlock (write : Write) (size : ℕ) : Prop where
  /-- No byte outside the buffer is asked for. -/
  inside : ∀ k s, writeBlock write (startBlock size) k = .running s → 0 < s.size →
    Inside size (extent s.start s.count)
  /-- The remaining size does not underflow. -/
  counter : ∀ k s v, writeBlock write (startBlock size) k = .running s → 0 < s.size →
    write s.calls s.start s.count = .accepted v → v ≤ s.size
  /-- When the loop ends, the bytes of the buffer were written in order, each once. -/
  exact : ∀ k s value, writeBlock write (startBlock size) k = .ended s value →
    s.written = extent 0 size
  /-- The loop ends if it is not told `EAGAIN` for ever. -/
  ends : FinitelyOftenAgain write size →
    ∃ k s value, writeBlock write (startBlock size) k = .ended s value

/-- On the way, too, the bytes that were written are the first ones of the buffer, each once. -/
def WritesInOrder (write : Write) (size : ℕ) : Prop :=
  ∀ k s, writeBlock write (startBlock size) k = .running s → s.written <+: extent 0 size

/-- The results that are harmless when `size` bytes are left from `first` on: the next call takes
all of them, or exactly half of them, and then the call for no bytes accepts none and the results
for the other half are harmless. -/
inductive Halves (write : Write) : ℕ → ℕ → ℕ → Prop
  | empty {call first : ℕ} : Halves write call first 0
  | whole {call first size : ℕ} (hwrite : write call first size = .accepted size) :
    Halves write call first size
  | half {call first size : ℕ} (hwrite : write call first (size + size) = .accepted size)
    (hnothing : write (call + 1) (first + size + size : ℕ) 0 = .accepted 0)
    (hrest : Halves write (call + 2) (first + size) size) : Halves write call first (size + size)

/-! ### Runs of the loop -/

/-- The loop at the start of what is left, with everything in front of it written. -/
def fresh (call first size : ℕ) : BlockState :=
  ⟨call, first, size, 0, extent 0 first⟩

/-- The loop after the call that has taken the first half of what was left. -/
def halved (call first size : ℕ) : BlockState :=
  ⟨call, first, size, size, extent 0 first⟩

@[simp] theorem start_fresh (call first size : ℕ) : (fresh call first size).start = first := by
  simp [fresh, BlockState.start]

theorem count_fresh {call first size : ℕ} (hsize : size < 2 ^ 64) :
    (fresh call first size).count = size := by
  rw [BlockState.count, fresh, Int.sub_zero, unsignedLong_natCast hsize]

@[simp] theorem start_halved (call first size : ℕ) :
    (halved call first size).start = (first + size : ℕ) := by
  rw [BlockState.start, halved, Int.natCast_add]

@[simp] theorem count_halved (call first size : ℕ) : (halved call first size).count = 0 := by
  rw [BlockState.count, halved, Int.sub_self]
  rfl

/-- A partial write from the start of what is left. -/
theorem advance_fresh {call first size v : ℕ} (hv : v ≤ size) (hsize : size < 2 ^ 64) :
    (fresh call first size).advance v (extent first v) =
      ⟨call + 1, (first + v : ℕ), size - v, v, extent 0 (first + v)⟩ := by
  have hleft : unsignedLong ((size : ℤ) - v) = size - v := by
    rw [← Int.ofNat_sub hv, unsignedLong_natCast (by omega)]
  have hwritten := extent_append 0 first v
  rw [Int.zero_add] at hwritten
  simp only [BlockState.advance, fresh, hleft, hwritten, Int.natCast_add]

/-- The call for no bytes leaves the loop at the start of what is left. -/
theorem advance_halved {call first size : ℕ} (hsize : size < 2 ^ 64) :
    (halved call first size).advance (0 : ℕ) (extent (first + size : ℕ) 0) =
      fresh (call + 1) first size := by
  simp only [BlockState.advance, halved, fresh, extent_zero, List.append_nil, Int.natCast_zero,
    Int.add_zero, Int.sub_zero, unsignedLong_natCast hsize]

/-! ### Harmless results -/

/-- The loop when the results from here on are harmless. -/
inductive OnTrack (write : Write) (size : ℕ) : BlockProgress → Prop
  | fresh {call first left : ℕ} (hleft : first + left = size)
    (hhalves : Halves write call first left) : OnTrack write size (.running (fresh call first left))
  | halved {call first left : ℕ} (hleft : first + left = size)
    (hnothing : write call (first + left : ℕ) 0 = .accepted 0)
    (hhalves : Halves write (call + 1) first left) :
    OnTrack write size (.running (halved call first left))
  | done {call : ℕ} {buf v : ℤ} : OnTrack write size (.running ⟨call, buf, 0, v, extent 0 size⟩)
  | ended {s : BlockState} {value : Option RqstStat} (hwritten : s.written = extent 0 size) :
    OnTrack write size (.ended s value)

/-- The next iteration of a loop at the start of what is left: it ends, takes everything, or takes
one half. -/
theorem onTrack_fresh {write : Write} {size call first left : ℕ} (hsize : size < 2 ^ 64)
    (hleft : first + left = size) (hhalves : Halves write call first left) :
    OnTrack write size (writeBlockIteration write (fresh call first left)) := by
  have hsmall : left < 2 ^ 64 := by omega
  rcases Nat.eq_zero_or_pos left with hnone | hsome
  · rw [writeBlockIteration_of_zero write hnone]
    refine .ended ?_
    rw [← hleft, hnone]
    rfl
  · cases hhalves with
    | empty => exact absurd hsome (Nat.lt_irrefl 0)
    | whole hwrite =>
      have hcall : write call (fresh call first left).start (fresh call first left).count =
          .accepted left := by rw [start_fresh, count_fresh hsmall, hwrite]
      rw [writeBlockIteration_of_accepted hsome hcall, start_fresh,
        advance_fresh (Nat.le_refl left) hsmall, Nat.sub_self, hleft]
      exact .done
    | @half _ _ part hwrite hnothing hrest =>
      have hcall : write call (fresh call first (part + part)).start
          (fresh call first (part + part)).count = .accepted part := by
        rw [start_fresh, count_fresh hsmall, hwrite]
      rw [writeBlockIteration_of_accepted hsome hcall, start_fresh,
        advance_fresh (Nat.le_add_left part part) hsmall, Nat.add_sub_cancel]
      exact .halved (by omega) hnothing hrest

/-- The call for no bytes sets the arguments right. -/
theorem onTrack_halved {write : Write} {size call first left : ℕ} (hsize : size < 2 ^ 64)
    (hleft : first + left = size) (hnothing : write call (first + left : ℕ) 0 = .accepted 0)
    (hhalves : Halves write (call + 1) first left) :
    OnTrack write size (writeBlockIteration write (halved call first left)) := by
  rcases Nat.eq_zero_or_pos left with hnone | hsome
  · rw [writeBlockIteration_of_zero write hnone]
    refine .ended ?_
    rw [← hleft, hnone]
    rfl
  · have hcall : write call (halved call first left).start (halved call first left).count =
        .accepted 0 := by rw [start_halved, count_halved, hnothing]
    rw [writeBlockIteration_of_accepted hsome hcall, start_halved, advance_halved (by omega)]
    exact .fresh hleft hhalves

/-- A loop whose results are harmless stays so. -/
theorem onTrack_writeBlock {write : Write} {size : ℕ} (hsize : size < 2 ^ 64)
    (hhalves : Halves write 0 0 size) (k : ℕ) :
    OnTrack write size (writeBlock write (startBlock size) k) := by
  refine after_induction (.fresh (Nat.zero_add size) hhalves) (fun s htrack ↦ ?_) k
  cases htrack with
  | fresh hleft hrest => exact onTrack_fresh hsize hleft hrest
  | halved hleft hnothing hrest => exact onTrack_halved hsize hleft hnothing hrest
  | done =>
    rw [writeBlockIteration_of_zero write rfl]
    exact .ended rfl

/-- A loop whose results are harmless asks for bytes inside the buffer, and not for more than what
is left. -/
theorem onTrack_request {write : Write} {size : ℕ} {s : BlockState} (hsize : size < 2 ^ 64)
    (hsound : OnTrack write size (.running s)) (hsome : 0 < s.size) :
    Inside size (extent s.start s.count) ∧ s.count ≤ s.size := by
  cases hsound with
  | @fresh call first left hleft hhalves =>
    have hcount := @count_fresh call first left (by omega)
    rw [start_fresh, hcount, inside_extent_iff]
    exact ⟨Or.inr ⟨by omega, by omega⟩, Nat.le_refl left⟩
  | halved hleft hnothing hhalves =>
    rw [start_halved, count_halved]
    exact ⟨inside_extent_iff.mpr (Or.inl rfl), Nat.zero_le _⟩
  | done => exact absurd hsome (Nat.lt_irrefl 0)

/-- A loop whose results are harmless ends. -/
theorem exists_ended_of_halves {write : Write} {size call first left : ℕ} (hsize : size < 2 ^ 64)
    (hleft : first + left = size) (hhalves : Halves write call first left) {k : ℕ}
    (hrunning : writeBlock write (startBlock size) k = .running (fresh call first left)) :
    ∃ k s value, writeBlock write (startBlock size) k = .ended s value := by
  induction hhalves generalizing k with
  | empty => exact ⟨k + 1, _, _, by
      rw [writeBlock_succ_of_running hrunning, writeBlockIteration_of_zero write rfl]⟩
  | @whole call first left hwrite =>
    rcases Nat.eq_zero_or_pos left with hnone | hsome
    · exact ⟨k + 1, _, _, by
        rw [writeBlock_succ_of_running hrunning, writeBlockIteration_of_zero write hnone]⟩
    · have hcall : write call (fresh call first left).start (fresh call first left).count =
          .accepted left := by rw [start_fresh, count_fresh (by omega), hwrite]
      have hnext : writeBlock write (startBlock size) (k + 1) =
          .running ⟨call + 1, (first + left : ℕ), left - left, left, extent 0 (first + left)⟩ := by
        rw [writeBlock_succ_of_running hrunning, writeBlockIteration_of_accepted hsome hcall,
          start_fresh, advance_fresh (Nat.le_refl left) (by omega)]
      exact ⟨k + 2, _, _, by
        rw [writeBlock_succ_of_running hnext,
          writeBlockIteration_of_zero write (Nat.sub_self left)]⟩
  | @half call first part hwrite hnothing hrest ih =>
    rcases Nat.eq_zero_or_pos part with hnone | hsome
    · subst hnone
      exact ⟨k + 1, _, _, by
        rw [writeBlock_succ_of_running hrunning, writeBlockIteration_of_zero write rfl]⟩
    · have hcall : write call (fresh call first (part + part)).start
          (fresh call first (part + part)).count = .accepted part := by
        rw [start_fresh, count_fresh (by omega), hwrite]
      have hnext : writeBlock write (startBlock size) (k + 1) =
          .running (halved (call + 1) (first + part) part) := by
        rw [writeBlock_succ_of_running hrunning,
          writeBlockIteration_of_accepted (Nat.add_pos_left hsome part) hcall, start_fresh,
          advance_fresh (Nat.le_add_left part part) (by omega), Nat.add_sub_cancel]
        rfl
      have hcall' : write (call + 1) (halved (call + 1) (first + part) part).start
          (halved (call + 1) (first + part) part).count = .accepted 0 := by
        rw [start_halved, count_halved, hnothing]
      refine ih (by omega) (k := k + 2) ?_
      rw [writeBlock_succ_of_running hnext, writeBlockIteration_of_accepted hsome hcall',
        start_halved, advance_halved (by omega)]

/-- Harmless results are enough. -/
theorem writesBlock_of_halves {write : Write} {size : ℕ} (hsize : size < 2 ^ 64)
    (hpieces : PartialWrites write) (hhalves : Halves write 0 0 size) :
    WritesBlock write size ∧ WritesInOrder write size := by
  have htrack := onTrack_writeBlock hsize hhalves
  refine ⟨⟨fun k s hrunning hsome ↦ ?_, fun k s v hrunning hsome hwrite ↦ ?_,
    fun k s value hended ↦ ?_, fun _ ↦ ?_⟩, fun k s hrunning ↦ ?_⟩
  · exact (onTrack_request hsize (hrunning ▸ htrack k) hsome).1
  · rcases hpieces s.calls s.start s.count with hagain | ⟨v', haccepted, hmost, -⟩
    · rw [hagain] at hwrite
      cases hwrite
    · rw [haccepted] at hwrite
      cases hwrite
      exact hmost.trans (onTrack_request hsize (hrunning ▸ htrack k) hsome).2
  · have hsound := hended ▸ htrack k
    cases hsound with
    | ended hwritten => exact hwritten
  · exact exists_ended_of_halves hsize (Nat.zero_add size) hhalves (k := 0) rfl
  · have hsound := hrunning ▸ htrack k
    cases hsound with
    | fresh hleft hrest => exact extent_prefix_extent (by omega)
    | halved hleft hnothing hrest => exact extent_prefix_extent (by omega)
    | done => exact List.prefix_rfl

/-! ### Other results -/

/-- The bytes that were written are no longer the first ones of the buffer, or the loop is about to
write in front of where it has come to. -/
def Astray (size : ℕ) (s : BlockState) : Prop :=
  ¬ s.written <+: extent 0 size ∨
    ∃ done : ℕ, s.written = extent 0 done ∧ done < size ∧ s.buf < done ∧ (s.v = -1 ∨ s.v = 0)

/-- The loop is astray, or it has ended with other bytes than those of the buffer. -/
def OffTrack (size : ℕ) : BlockProgress → Prop
  | .running s => Astray size s
  | .ended s _ => s.written ≠ extent 0 size

theorem written_ne_of_astray {size : ℕ} {s : BlockState} (hastray : Astray size s) :
    s.written ≠ extent 0 size := by
  intro hwritten
  rcases hastray with hruined | ⟨done, hdone, hless, -, -⟩
  · exact hruined (hwritten ▸ List.prefix_rfl)
  · have hlength := congrArg List.length (hdone.symm.trans hwritten)
    rw [length_extent, length_extent] at hlength
    omega

/-- More bytes do not bring the order back. -/
theorem not_prefix_append {size : ℕ} {written : List ℤ}
    (hruined : ¬ written <+: extent 0 size) (more : List ℤ) : ¬ written ++ more <+: extent 0 size :=
  fun hbegins ↦ hruined ((List.prefix_append written more).trans hbegins)

/-- Bytes from somewhere else than where the loop has come to. -/
theorem not_prefix_of_start {size done v : ℕ} {start : ℤ} (hv : 0 < v) (hstart : start ≠ done) :
    ¬ extent 0 done ++ extent start v <+: extent 0 size := by
  intro hbegins
  rw [← List.append_nil (extent 0 done ++ extent start v)] at hbegins
  exact hstart (start_eq_of_begins hbegins hv)

/-- An iteration does not bring a loop back that is astray. -/
theorem offTrack_iteration {size : ℕ} {s : BlockState} (write : Write)
    (hastray : Astray size s) : OffTrack size (writeBlockIteration write s) := by
  rw [writeBlockIteration]
  split_ifs with hsome
  · cases write s.calls s.start s.count with
    | accepted v =>
      rcases hastray with hruined | ⟨done, hdone, hless, hbuf, hv⟩
      · exact Or.inl (not_prefix_append hruined _)
      · rcases Nat.eq_zero_or_pos v with hnone | hmore
        · subst hnone
          refine Or.inr ⟨done, ?_, hless, ?_, Or.inr rfl⟩
          · simp [BlockState.advance, hdone]
          · simpa [BlockState.advance] using hbuf
        · refine Or.inl ?_
          rw [BlockState.advance, hdone]
          refine not_prefix_of_start hmore ?_
          rw [BlockState.start]
          omega
    | again =>
      rcases hastray with hruined | ⟨done, hdone, hless, hbuf, hv⟩
      · exact Or.inl (not_prefix_append hruined _)
      · refine Or.inr ⟨done, ?_, hless, ?_, Or.inl rfl⟩
        · simp [BlockState.advance, hdone]
        · simp only [BlockState.advance]
          omega
    | brokenPipe => exact written_ne_of_astray hastray
    | failed => exact written_ne_of_astray hastray
  · exact written_ne_of_astray hastray

/-- Nor does any number of them. -/
theorem offTrack_writeBlock {write : Write} {size k : ℕ} {start s : BlockState}
    (hrunning : writeBlock write start k = .running s) (hastray : Astray size s) (more : ℕ) :
    OffTrack size (writeBlock write start (k + more)) := by
  rw [writeBlock, after_add_of_running hrunning]
  exact after_induction hastray (fun _ ↦ offTrack_iteration write) more

/-- A loop that writes the buffer and ends was never astray. -/
theorem not_astray_of_ended {write : Write} {size : ℕ} (hwrites : WritesBlock write size)
    (hagain : FinitelyOftenAgain write size) {k : ℕ} {s : BlockState}
    (hrunning : writeBlock write (startBlock size) k = .running s) : ¬ Astray size s := by
  intro hastray
  obtain ⟨last, t, value, hended⟩ := hwrites.ends hagain
  have hlater := writeBlock_add_of_ended hended k
  have hoff := offTrack_writeBlock hrunning hastray last
  rw [Nat.add_comm, hlater] at hoff
  exact hoff (hwrites.exact last t value hended)

theorem unsignedLong_lt (value : ℤ) : unsignedLong value < 2 ^ 64 := by
  rw [unsignedLong]
  omega

theorem size_advance_lt (s : BlockState) (v : ℤ) (positions : List ℤ) :
    (s.advance v positions).size < 2 ^ 64 := by
  rw [BlockState.advance]
  exact unsignedLong_lt _

/-- `EAGAIN` makes the remaining size grow, and when it passes its maximum the loop ends. -/
theorem unsignedLong_succ {n : ℕ} (hn : n < 2 ^ 64) :
    unsignedLong ((n : ℤ) - -1) = 0 ∨ unsignedLong ((n : ℤ) - -1) = n + 1 := by
  rw [unsignedLong]
  omega

/-- A loop that is astray does not keep to the first bytes of the buffer, or it ends with other
bytes. The induction is on how far the remaining size can still grow, and on the -1 that lets one
more call go by without a byte. -/
theorem exists_disorder {write : Write} {size : ℕ} (hpieces : PartialWrites write) {n k : ℕ}
    {s : BlockState} (hrunning : writeBlock write (startBlock size) k = .running s)
    (hastray : Astray size s) (hbound : s.size < 2 ^ 64)
    (hmeasure : 2 * (2 ^ 64 - s.size) + (if s.v = -1 then 1 else 0) ≤ n) :
    ∃ k, (∃ t, writeBlock write (startBlock size) k = .running t ∧
        ¬ t.written <+: extent 0 size) ∨
      ∃ t value, writeBlock write (startBlock size) k = .ended t value ∧
        t.written ≠ extent 0 size := by
  induction n generalizing k s with
  | zero => omega
  | succ n ih =>
    have hnext := writeBlock_succ_of_running hrunning
    have hoff := offTrack_iteration write hastray
    obtain hruined | ⟨-, -, -, -, hv⟩ := id hastray
    · exact ⟨k, Or.inl ⟨s, hrunning, hruined⟩⟩
    rcases Nat.eq_zero_or_pos s.size with hnone | hsome
    · rw [writeBlockIteration_of_zero write hnone] at hnext
      exact ⟨k + 1, Or.inr ⟨_, _, hnext, written_ne_of_astray hastray⟩⟩
    · rcases hpieces s.calls s.start s.count with hagain | ⟨v, haccepted, -, -, hleast⟩
      · rw [writeBlockIteration_of_again hsome hagain] at hnext hoff
        rcases unsignedLong_succ hbound with hwrapped | hgrown
        · have hended : writeBlock write (startBlock size) (k + 2) =
              .ended (s.advance (-1) []) none := by
            rw [writeBlock_succ_of_running hnext, writeBlockIteration_of_zero write hwrapped]
          exact ⟨k + 2, Or.inr ⟨_, _, hended, written_ne_of_astray hoff⟩⟩
        · refine ih hnext hoff (size_advance_lt s (-1) []) ?_
          simp only [BlockState.advance, hgrown, if_pos]
          split_ifs at hmeasure <;> omega
      · rw [writeBlockIteration_of_accepted hsome haccepted] at hnext hoff
        rcases Nat.eq_zero_or_pos v with hzero | hmore
        · -- Nothing was accepted, so nothing was asked for, and the last result was -1.
          have hcount : s.count = 0 := by omega
          have hlast : s.v = -1 := by
            refine hv.resolve_right fun hlast ↦ ?_
            rw [BlockState.count, hlast, Int.sub_zero, unsignedLong_natCast hbound] at hcount
            omega
          refine ih hnext hoff (size_advance_lt s v _) ?_
          have hsame : (s.advance v (extent s.start v)).size = s.size := by
            rw [BlockState.advance, hzero, Int.natCast_zero, Int.sub_zero,
              unsignedLong_natCast hbound]
          have hnow : ¬ (s.advance v (extent s.start v)).v = -1 := by
            simp only [BlockState.advance]
            omega
          rw [hsame, if_neg hnow]
          rw [if_pos hlast] at hmeasure
          omega
        · rcases hoff with hruined | ⟨done, hdone, hless, hbuf, hnow⟩
          · exact ⟨k + 1, Or.inl ⟨_, hnext, hruined⟩⟩
          · simp only [BlockState.advance] at hnow
            omega

/-- A loop that writes the buffer in order was never astray. -/
theorem not_astray_of_inOrder {write : Write} {size : ℕ} (hpieces : PartialWrites write)
    (hwrites : WritesBlock write size) (horder : WritesInOrder write size) {k : ℕ} {s : BlockState}
    (hrunning : writeBlock write (startBlock size) k = .running s) (hbound : s.size < 2 ^ 64) :
    ¬ Astray size s := by
  intro hastray
  obtain ⟨later, ⟨t, ht, hruined⟩ | ⟨t, value, hended, hother⟩⟩ :=
    exists_disorder hpieces hrunning hastray hbound le_rfl
  · exact hruined (horder later t ht)
  · exact hother (hwrites.exact later t value hended)

/-- `EAGAIN` in front of the end leads astray. -/
theorem astray_of_again {size : ℕ} {s : BlockState} {done : ℕ}
    (hwritten : s.written = extent 0 done) (hdone : done < size) (hbuf : s.buf ≤ done) :
    Astray size (s.advance (-1) []) := by
  refine Or.inr ⟨done, ?_, hdone, ?_, Or.inl rfl⟩
  · simp [BlockState.advance, hwritten]
  · simp only [BlockState.advance]
    omega

/-- The call after a partial write that was not harmless starts behind bytes that are left out, or
is for bytes behind the buffer. So the write has taken half, and nothing was asked for. -/
theorem half_of_not_astray {write : Write} {size : ℕ} (hsize : size < 2 ^ 64)
    (hpieces : PartialWrites write)
    (hsound : ∀ k s, writeBlock write (startBlock size) k = .running s → s.size < 2 ^ 64 →
      ¬ Astray size s)
    {k call first left v : ℕ} (hleft : first + left = size) (hmore : 0 < v) (hless : v < left)
    (hrunning : writeBlock write (startBlock size) k =
      .running ⟨call, (first + v : ℕ), left - v, v, extent 0 (first + v)⟩) :
    left = v + v ∧ write call (first + v + v : ℕ) 0 = .accepted 0 := by
  set s : BlockState := ⟨call, (first + v : ℕ), left - v, v, extent 0 (first + v)⟩ with hs
  have hsome : 0 < s.size := by
    simp only [hs]
    omega
  have hstart : s.start = (first + v + v : ℕ) := by simp [hs, BlockState.start]
  have hcount : s.count = unsignedLong (left - v - v) := by
    rw [BlockState.count, hs, Int.ofNat_sub (by omega)]
  have hnext := writeBlock_succ_of_running hrunning
  obtain hagain | ⟨w, haccepted, hmost, -, hleast⟩ := hpieces s.calls s.start s.count
  · rw [writeBlockIteration_of_again hsome hagain] at hnext
    exact absurd (@astray_of_again size s (first + v) rfl (by omega) le_rfl)
      (hsound _ _ hnext (size_advance_lt s (-1) []))
  · rw [writeBlockIteration_of_accepted hsome haccepted] at hnext
    have hnothing : w = 0 := by
      by_contra hw
      refine hsound _ _ hnext (size_advance_lt s w _) (Or.inl ?_)
      exact not_prefix_of_start (Nat.pos_of_ne_zero hw) (by omega)
    have hzero : s.count = 0 := by omega
    refine ⟨?_, ?_⟩
    · rw [hcount, unsignedLong] at hzero
      omega
    · rw [hzero, hnothing, hstart] at haccepted
      exact haccepted

/-- When the loop never goes astray, the results are harmless. The induction is on what is left. -/
theorem halves_of_not_astray {write : Write} {size : ℕ} (hsize : size < 2 ^ 64)
    (hpieces : PartialWrites write)
    (hsound : ∀ k s, writeBlock write (startBlock size) k = .running s → s.size < 2 ^ 64 →
      ¬ Astray size s)
    {k call first left : ℕ} (hleft : first + left = size)
    (hrunning : writeBlock write (startBlock size) k = .running (fresh call first left)) :
    Halves write call first left := by
  induction left using Nat.strong_induction_on generalizing k call first with
  | _ left ih =>
    rcases Nat.eq_zero_or_pos left with hnone | hsome
    · rw [hnone]
      exact .empty
    have hsmall : left < 2 ^ 64 := by omega
    have hnext := writeBlock_succ_of_running hrunning
    have hcount := @count_fresh call first left hsmall
    obtain hagain | ⟨v, haccepted, hmost, -, hleast⟩ :=
      hpieces call (fresh call first left).start (fresh call first left).count
    · rw [writeBlockIteration_of_again hsome hagain] at hnext
      exact absurd (astray_of_again (s := fresh call first left) rfl (by omega) le_rfl)
        (hsound _ _ hnext (size_advance_lt _ _ _))
    · rw [hcount] at hmost hleast
      rw [writeBlockIteration_of_accepted hsome haccepted, start_fresh,
        advance_fresh hmost hsmall] at hnext
      rw [start_fresh, hcount] at haccepted
      rcases Nat.lt_or_eq_of_le hmost with hless | hall
      · obtain ⟨hhalf, hnothing⟩ :=
          half_of_not_astray hsize hpieces hsound hleft (hleast hsome) hless hnext
        subst hhalf
        rw [Nat.add_sub_cancel] at hnext
        have hcall : write (call + 1) (halved (call + 1) (first + v) v).start
            (halved (call + 1) (first + v) v).count = .accepted 0 := by
          rw [start_halved, count_halved, hnothing]
        refine .half haccepted hnothing (ih v hless (k := k + 2) (by omega) ?_)
        have hpart : 0 < (halved (call + 1) (first + v) v).size := hleast hsome
        rw [writeBlock_succ_of_running (t := halved (call + 1) (first + v) v) hnext,
          writeBlockIteration_of_accepted hpart hcall, start_halved, advance_halved (by omega)]
      · rw [hall] at haccepted
        exact .whole haccepted

/-- Among the sequences with finitely many `EAGAIN`, `write_block` writes a buffer exactly for those
whose results are harmless. With `EAGAIN` for ever it may also go round and never end, and then the
bytes on the way are out of order. -/
theorem writesBlock_iff {write : Write} {size : ℕ} (hsize : size < 2 ^ 64)
    (hpieces : PartialWrites write) :
    (WritesBlock write size ∧ WritesInOrder write size ↔ Halves write 0 0 size) ∧
      (FinitelyOftenAgain write size → (WritesBlock write size ↔ Halves write 0 0 size)) := by
  have henough := @writesBlock_of_halves write size hsize hpieces
  refine ⟨⟨fun ⟨hwrites, horder⟩ ↦ ?_, henough⟩,
    fun hagain ↦ ⟨fun hwrites ↦ ?_, fun hhalves ↦ (henough hhalves).1⟩⟩
  · exact halves_of_not_astray hsize hpieces
      (fun _ _ hrunning ↦ not_astray_of_inOrder hpieces hwrites horder hrunning)
      (Nat.zero_add size) (k := 0) rfl
  · exact halves_of_not_astray hsize hpieces
      (fun _ _ hrunning _ ↦ not_astray_of_ended hwrites hagain hrunning)
      (Nat.zero_add size) (k := 0) rfl

/-- Calls of `write` that accept up to the given number of bytes. -/
def smallWrite (most : ℕ) : Write :=
  fun _ _ count ↦ .accepted (min count most)

theorem partialWrites_smallWrite {most : ℕ} (hmost : 1 ≤ most) (hsmall : most < 2 ^ 63) :
    PartialWrites (smallWrite most) := by
  intro call start count
  exact Or.inr ⟨min count most, rfl, by omega, by omega, fun hcount ↦ by omega⟩

/-- A buffer of ten bytes whose halves are accepted one after the other. -/
theorem writesBlock_halves :
    PartialWrites (smallWrite 5) ∧
      ((WritesBlock (smallWrite 5) 10 ∧ WritesInOrder (smallWrite 5) 10 ↔
        Halves (smallWrite 5) 0 0 10) ∧
        (FinitelyOftenAgain (smallWrite 5) 10 →
          (WritesBlock (smallWrite 5) 10 ↔ Halves (smallWrite 5) 0 0 10))) ∧
      WritesBlock (smallWrite 5) 10 := by
  have hpieces : PartialWrites (smallWrite 5) := partialWrites_smallWrite (by decide) (by decide)
  have hexact := @writesBlock_iff (smallWrite 5) 10 (by decide) hpieces
  have hhalves : Halves (smallWrite 5) 0 0 10 := @Halves.half _ 0 0 5 rfl rfl (.whole rfl)
  exact ⟨hpieces, writesBlock_iff (by decide) hpieces, (hexact.1.mpr hhalves).1⟩

/-- When three bytes are accepted one at a time, the second one is left out and the third one is
written twice. -/
theorem not_writesBlock :
    (¬ ∀ (write : Write) (size : ℕ), size < 2 ^ 64 → PartialWrites write →
      WritesBlock write size) ∧
      writeBlock (smallWrite 1) (startBlock 3) 5 = .ended ⟨4, 3, 0, 1, [0, 2, 2]⟩ none := by
  have hended : writeBlock (smallWrite 1) (startBlock 3) 5 =
      .ended ⟨4, 3, 0, 1, [0, 2, 2]⟩ none := by decide +kernel
  refine ⟨fun hwrites ↦ ?_, hended⟩
  have hwrite := hwrites (smallWrite 1) 3 (by decide)
    (partialWrites_smallWrite (by decide) (by decide))
  exact absurd (hwrite.exact 5 _ _ hended) (by decide)

end ImageApp.Responses
