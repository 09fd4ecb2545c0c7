/-
  CompileCache.Proofs.RunningDigest — a digest of bytes that arrive in chunks is the digest
  of the bytes.

  A hasher that has absorbed a message is where the one-step hash of any continuation passes
  through: the whole blocks of the message are in its registers, the rest is its tail. So it
  does not matter how the message was cut (`absorbed_update`, `finish_eq_hash`). A running
  digest that `Holds` a message was only added to, and no other one holds it, so that adding
  in parts is adding at once (`add_add`, `holds_used`); closing it yields the message's digest
  (`close_of_holds`).

  A digest that was closed is `Spent`: whatever is asked of it then only marks it as misused.
  Anything asked of a new digest leaves it in one of the two states (`holds_or_spent`).

  Proved: it yields one digest, that of what was added until it was first closed, and its count
  and its marks say just what was asked of it (`yields_once`).
-/

import CompileCache.Digest

namespace CompileCache

namespace Sha256

/-! ## Folding blocks -/

theorem compressBlocks_add (m n : Nat) (r : Registers) (bs : Bytes) :
    compressBlocks (m + n) r bs = compressBlocks n (compressBlocks m r bs) (bs.drop (64 * m)) := by
  induction m generalizing r bs with
  | zero => simp [compressBlocks]
  | succ m ih =>
    rw [Nat.succ_add]
    simp only [compressBlocks, ih, List.drop_drop]
    rw [show 64 + 64 * m = 64 * (m + 1) by omega]

/-- Only the first `n` blocks are read. -/
theorem compressBlocks_append (n : Nat) (r : Registers) (bs more : Bytes) (h : 64 * n ≤ bs.length) :
    compressBlocks n r (bs ++ more) = compressBlocks n r bs := by
  induction n generalizing r bs with
  | zero => rfl
  | succ n ih =>
    have hd : 64 * n ≤ (bs.drop 64).length := by
      rw [List.length_drop]
      omega
    simp only [compressBlocks]
    rw [List.take_append_of_le_length (by omega), List.drop_append_of_le_length (by omega), ih _ _ hd]

/-- What is left of a message when its whole blocks have been folded. -/
def openBlock (message : Bytes) : Bytes := message.drop (64 * (message.length / 64))

/-- The registers after the whole blocks of a message. -/
def foldBlocks (message : Bytes) : Registers :=
  compressBlocks (message.length / 64) Registers.initial message

theorem foldBlocks_append (message more : Bytes) :
    foldBlocks (message ++ more) =
      compressBlocks ((openBlock message ++ more).length / 64) (foldBlocks message)
        (openBlock message ++ more) := by
  have hq : 64 * (message.length / 64) ≤ message.length := Nat.mul_div_le ..
  have hlen : (message ++ more).length / 64 =
      message.length / 64 + (openBlock message ++ more).length / 64 := by
    simp only [openBlock, List.length_append, List.length_drop]
    omega
  rw [foldBlocks, hlen, compressBlocks_add, compressBlocks_append _ _ _ _ hq,
    List.drop_append_of_le_length hq]
  rfl

theorem openBlock_append (message more : Bytes) :
    openBlock (message ++ more) =
      (openBlock message ++ more).drop (64 * ((openBlock message ++ more).length / 64)) := by
  have hq : 64 * (message.length / 64) ≤ message.length := Nat.mul_div_le ..
  have hpool : openBlock message ++ more = (message ++ more).drop (64 * (message.length / 64)) :=
    (List.drop_append_of_le_length hq).symm
  rw [hpool, List.drop_drop, openBlock, List.length_drop, List.length_append]
  congr 1
  omega

namespace Hasher

/-- The hasher has been given this message and nothing else. -/
structure Absorbed (s : Hasher) (message : Bytes) : Prop where
  registers : s.registers = foldBlocks message
  tail : s.tail = openBlock message
  total : s.total = message.length

theorem absorbed_empty : Absorbed empty [] := ⟨rfl, rfl, rfl⟩

theorem absorbed_update {s : Hasher} {message : Bytes} (h : s.Absorbed message) (data : Bytes) :
    (s.update data).Absorbed (message ++ data) := by
  constructor
  · rw [foldBlocks_append, ← h.registers, ← h.tail]
    rfl
  · rw [openBlock_append, ← h.tail]
    rfl
  · simp [update, h.total]

/-- A hasher is known from what it was given. -/
theorem Absorbed.unique {s s' : Hasher} {message : Bytes} (h : s.Absorbed message)
    (h' : s'.Absorbed message) : s = s' := by
  obtain ⟨registers, tail, total⟩ := s
  obtain ⟨rfl, rfl, rfl⟩ := h
  obtain ⟨registers', tail', total'⟩ := s'
  obtain ⟨rfl, rfl, rfl⟩ := h'
  rfl

theorem finish_eq_hash {s : Hasher} {message : Bytes} (h : s.Absorbed message) :
    s.finish = hash message := by
  have hfold := foldBlocks_append message (padding message.length)
  rw [← h.registers, ← h.tail] at hfold
  simp only [finish, hash, h.total]
  exact congrArg Registers.toBytes hfold.symm

end Hasher

end Sha256

namespace RunningDigest

/-- The digest is open, and this is what was added to it. -/
structure Holds (r : RunningDigest) (message : Bytes) : Prop where
  state : ∃ h, r.state = some h ∧ h.Absorbed message
  count : r.count = message.length
  misused : r.misused = false

theorem holds_empty : empty.Holds [] := ⟨⟨_, rfl, Sha256.Hasher.absorbed_empty⟩, rfl, rfl⟩

theorem holds_add {r : RunningDigest} {message : Bytes} (h : r.Holds message) (chunk : Bytes) :
    (r.add chunk).Holds (message ++ chunk) := by
  obtain ⟨⟨hasher, hs, ha⟩, hc, hm⟩ := h
  refine ⟨⟨hasher.update chunk, ?_, Sha256.Hasher.absorbed_update ha chunk⟩, ?_, ?_⟩
  · simp [add, hs]
  · simp [add, hs, hc]
  · simp [add, hs, hm]

theorem Holds.unique {r r' : RunningDigest} {message : Bytes} (h : r.Holds message)
    (h' : r'.Holds message) : r = r' := by
  obtain ⟨state, count, misused⟩ := r
  obtain ⟨⟨hasher, rfl, habsorbed⟩, rfl, rfl⟩ := h
  obtain ⟨state', count', misused'⟩ := r'
  obtain ⟨⟨hasher', rfl, habsorbed'⟩, rfl, rfl⟩ := h'
  rw [habsorbed.unique habsorbed']

/-- It does not matter how what is added was cut. -/
theorem add_add (a b : Bytes) : (empty.add a).add b = empty.add (a ++ b) := by
  have hparts := holds_add (holds_add holds_empty a) b
  rw [List.append_assoc] at hparts
  exact hparts.unique (holds_add holds_empty (a ++ b))

theorem close_of_holds {r : RunningDigest} {message : Bytes} (h : r.Holds message) :
    r.close.1 = some (Digest.compute message) ∧ r.close.2.misused = false := by
  obtain ⟨⟨hasher, hs, ha⟩, hc, hm⟩ := h
  have hd : (⟨hasher.finish, hasher.length_finish⟩ : Digest) = Digest.compute message := by
    rw [Digest.compute, Digest.mk.injEq]
    exact Sha256.Hasher.finish_eq_hash ha
  simp [close, hs, hm, hd]

/-! ## Whatever is asked of it -/

/-- What can be asked of a running digest. -/
inductive Use where
  | add (chunk : Bytes)
  | close

/-- The digest after it was asked. -/
def use (r : RunningDigest) : Use → RunningDigest
  | .add chunk => r.add chunk
  | .close => r.close.2

def used (r : RunningDigest) (uses : List Use) : RunningDigest := uses.foldl use r

theorem used_append (r : RunningDigest) (uses more : List Use) :
    r.used (uses ++ more) = (r.used uses).used more := List.foldl_append

theorem holds_used {r : RunningDigest} {message : Bytes} (h : r.Holds message)
    (chunks : List Bytes) : (r.used (chunks.map .add)).Holds (message ++ chunks.flatten) := by
  induction chunks generalizing r message with
  | nil => simpa [used] using h
  | cons chunk chunks ih =>
    rw [List.flatten_cons, ← List.append_assoc]
    exact ih (holds_add h chunk)

theorem count_close (r : RunningDigest) : r.close.2.count = r.count := by
  unfold close
  split <;> rfl

/-- The digest is closed, and `size` bytes had been added to it. -/
structure Spent (r : RunningDigest) (size : Nat) (misused : Bool) : Prop where
  state : r.state = none
  count : r.count = size
  misused : r.misused = misused

/-- To close a digest again is a misuse. -/
theorem spent_close (r : RunningDigest) : r.close.2.Spent r.count (r.misused || r.isClosed) := by
  refine ⟨?_, count_close r, ?_⟩
  · cases hs : r.state <;> simp [close, hs]
  · cases hs : r.state <;> simp [close, isClosed, hs]

theorem Spent.close {r : RunningDigest} {size : Nat} {misused : Bool} (h : r.Spent size misused) :
    r.close.1 = none := by
  simp [RunningDigest.close, h.state]

/-- A closed digest only notes that it was misused. -/
theorem Spent.use {r : RunningDigest} {size : Nat} {misused : Bool} (h : r.Spent size misused)
    (u : Use) : (r.use u).Spent size true := by
  have hnoted : r.use u = { r with misused := true } := by
    cases u <;> simp [RunningDigest.use, add, RunningDigest.close, h.state]
  rw [hnoted]
  exact ⟨h.state, h.count, rfl⟩

theorem Spent.used {r : RunningDigest} {size : Nat} {misused : Bool} (h : r.Spent size misused)
    (uses : List Use) : (r.used uses).Spent size (misused || !uses.isEmpty) := by
  induction uses generalizing r misused with
  | nil => simpa [RunningDigest.used] using h
  | cons u uses ih =>
    show ((r.use u).used uses).Spent size _
    simpa using ih (h.use u)

theorem spent_of_closed (r : RunningDigest) (before after : List Use) :
    (r.used (before ++ .close :: after)).Spent (r.used before).count
      ((r.used before).misused || (r.used before).isClosed || !after.isEmpty) := by
  rw [used_append]
  exact (spent_close (r.used before)).used after

theorem misused_used {r : RunningDigest} (h : r.misused) (uses : List Use) :
    (r.used uses).misused := by
  induction uses generalizing r with
  | nil => exact h
  | cons u uses ih =>
    refine ih ?_
    cases u <;> cases hs : r.state <;> simp [use, add, close, hs, h]

/-- The chunks added before the digest was closed for the first time. -/
def chunks : List Use → List Bytes
  | .add chunk :: uses => chunk :: chunks uses
  | _ => []

theorem eq_adds {uses : List Use} (h : .close ∉ uses) : uses = (chunks uses).map .add := by
  induction uses with
  | nil => rfl
  | cons u uses ih =>
    rw [List.mem_cons, not_or] at h
    cases u with
    | add chunk => rw [chunks, List.map_cons, ← ih h.2]
    | close => exact absurd rfl h.1

theorem chunks_of_closed {before : List Use} (h : .close ∉ before) (after : List Use) :
    chunks (before ++ .close :: after) = chunks before := by
  rw [eq_adds h]
  induction chunks before with
  | nil => rfl
  | cons chunk rest ih => simp [chunks, ih]

theorem holds_of_not_closed {uses : List Use} (h : .close ∉ uses) :
    (empty.used uses).Holds (chunks uses).flatten := by
  have hholds := holds_used holds_empty (chunks uses)
  rwa [← eq_adds h] at hholds

/-- Either the digest was never closed, or there is a first time. -/
theorem holds_or_spent (uses : List Use) :
    .close ∉ uses ∧ (empty.used uses).Holds (chunks uses).flatten ∨
      ∃ before after, uses = before ++ .close :: after ∧
        (empty.used uses).Spent (chunks uses).flatten.length (!after.isEmpty) := by
  by_cases hclosed : .close ∈ uses
  · obtain ⟨before, after, rfl, hfirst⟩ := List.eq_append_cons_of_mem hclosed
    have hopen := holds_of_not_closed hfirst
    obtain ⟨hasher, hstate, -⟩ := hopen.state
    have hspent := spent_of_closed empty before after
    rw [hopen.count, hopen.misused, isClosed, hstate] at hspent
    refine .inr ⟨before, after, rfl, ?_⟩
    rwa [chunks_of_closed hfirst]
  · exact .inl ⟨hclosed, holds_of_not_closed hclosed⟩

theorem misused_used_iff (uses : List Use) :
    (empty.used uses).misused ↔ ∃ before after, uses = before ++ .close :: after ∧ after ≠ [] := by
  constructor
  · intro hmisused
    rcases holds_or_spent uses with ⟨-, hholds⟩ | ⟨before, after, heq, hspent⟩
    · rw [hholds.misused] at hmisused
      cases hmisused
    · rw [hspent.misused] at hmisused
      exact ⟨before, after, heq, by simpa using hmisused⟩
  · rintro ⟨before, after, rfl, hafter⟩
    rw [(spent_of_closed empty before after).misused]
    simp [hafter]

/-- Whatever was asked of a new digest, in whatever order. -/
theorem yields_once (uses : List Use) :
    let r := empty.used uses
    -- When it is first closed, it yields the digest of what was added; later it yields nothing.
    (.close ∉ uses → r.close.1 = some (Digest.compute (chunks uses).flatten)) ∧
    (.close ∈ uses → r.close.1 = none) ∧
    r.count = (chunks uses).flatten.length ∧
    (r.isClosed ↔ .close ∈ uses) ∧
    -- It was misused just if something was asked after it had been closed, and remains so.
    (r.misused ↔ ∃ before after, uses = before ++ .close :: after ∧ after ≠ []) ∧
    (r.misused → ∀ more, (r.used more).misused) := by
  intro r
  rcases holds_or_spent uses with ⟨hnever, hholds⟩ | ⟨before, after, heq, hspent⟩
  · obtain ⟨hasher, hstate, -⟩ := hholds.state
    have hopen : r.isClosed = false := by simp [r, isClosed, hstate]
    exact ⟨fun _ => (close_of_holds hholds).1, fun h => absurd h hnever, hholds.count,
      by simp [hopen, hnever], misused_used_iff uses, misused_used⟩
  · have hclosed : .close ∈ uses := by simp [heq]
    have hisClosed : r.isClosed = true := by simp [r, isClosed, hspent.state]
    exact ⟨fun h => absurd hclosed h, fun _ => hspent.close, hspent.count,
      by simp [hisClosed, hclosed], misused_used_iff uses, misused_used⟩

end RunningDigest

end CompileCache
