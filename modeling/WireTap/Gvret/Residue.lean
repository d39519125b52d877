import WireTap.Gvret.Refinement

/-! # One chunk ends, and what it leaves

`_rx_loop` handles a received chunk with two `while` loops over `self.buf`, modelled with a fuel
equal to the buffer's length (`onChunk`).  Both loops stop at their own `break`, not at the fuel:

* an iteration of the handshake loop deletes through the first `E7 E7`, at least two bytes
  (`handshake_drop_length`), and the loop ends with no `E7 E7` left (`findE7E7_handshake`);
* an iteration of the request loop that goes on consumes a request, at least two bytes
  (`requestStep_next_two`), and the loop ends on a buffer it would break on again
  (`requestLoop_waiting`, `requestStep_of_waiting`).

So a chunk leaves an ASCII session with no `E7 E7` in its buffer and a binary one with an empty
buffer, a lone `F1`, or an incomplete `F1 00` request (`onChunk_terminates_with_residue`).  The
calls the loops make do not enter: the loops never read what a call returns. -/

namespace WireTap.Gvret.Residue

open WireTap.ByteString WireTap.Gvret.Session WireTap.Gvret.Refinement

/-! ## The handshake loop -/

theorem findE7E7_some_le : ∀ {b : Bytes} {i : Nat}, findE7E7 b = some i → i + 2 ≤ b.length
  | a :: c :: rest, i, h => by
    unfold findE7E7 at h
    split_ifs at h
    · cases h; simp
    · obtain ⟨j, hj, rfl⟩ := Option.map_eq_some'.1 h
      have := findE7E7_some_le hj
      simp only [List.length_cons] at this ⊢
      omega
  | [], _, h => by cases h
  | [_], _, h => by cases h

theorem handshake_drop_length {b : Bytes} {i : Nat} (h : findE7E7 b = some i) :
    (b.drop (i + 2)).length + 2 ≤ b.length := by
  have := findE7E7_some_le h
  rw [List.length_drop]; omega

theorem findE7E7_handshake (n : Nat) (binary : Bool) (b : Bytes) (hn : b.length ≤ n) :
    findE7E7 (handshake n binary b).2 = none := by
  induction n generalizing binary b with
  | zero => rw [List.eq_nil_of_length_eq_zero (Nat.le_zero.1 hn)]; rfl
  | succ n ih =>
    cases hf : findE7E7 b with
    | none => simp only [handshake, hf]
    | some i =>
      simp only [handshake, hf]
      exact ih true _ (by have := handshake_drop_length hf; omega)

/-! ## The request loop -/

theorem requestStep_next_two {buf buf' : Bytes} {call : Option Call}
    (h : requestStep buf = .next buf' call) : buf'.length + 2 ≤ buf.length := by
  have hle := (List.dropWhile_suffix (· != 0xF1) (l := buf)).length_le
  rcases refStep_cases (refStep_of_requestStep h) with
    ⟨x, hx, hd, -⟩ | ⟨op, -, hd, -⟩ | ⟨more, -, -, hd, -, rfl⟩
  · exact absurd (head_dropWhile hd) hx
  · rw [hd, List.length_cons, List.length_cons] at hle; omega
  · rw [hd, List.length_cons, List.length_cons] at hle; rw [List.length_drop]; omega

theorem requestStep_of_waiting {b : Bytes} (h : Waiting b) : requestStep b = .exit b := by
  match b, h with
  | [], _ => rfl
  | [x], h =>
    obtain rfl : x = 0xF1 := by rcases h with h | h | ⟨h2, -⟩ <;> simp_all
    rfl
  | x :: y :: more, h =>
    obtain ⟨rfl, rfl⟩ : x = 0xF1 ∧ y = 0x00 := by
      rcases h with h | h | ⟨h2, -⟩
      · cases h
      · cases h
      · simpa using h2
    have hd : (0xF1 :: 0x00 :: more : Bytes).dropWhile (· != 0xF1) = 0xF1 :: 0x00 :: more := rfl
    simp only [requestStep, hd, ne_eq, not_true_eq_false, ↓reduceIte,
      (tryConsumeSendFrame_eq_none_iff more).2 h]

/-! ## One chunk -/

/-- What one chunk leaves: no `E7 E7` in an ASCII session's buffer, and in a binary session a
buffer the request loop waits on. -/
theorem onChunk_residue (s : ClientState) (chunk : Bytes) :
    ((onChunk s chunk).1.binary = false → findE7E7 (onChunk s chunk).1.buf = none) ∧
    ((onChunk s chunk).1.binary = true → Waiting (onChunk s chunk).1.buf) := by
  unfold onChunk
  dsimp only
  split_ifs
  · exact ⟨(fun h => by cases h), fun _ => requestLoop_waiting le_rfl⟩
  · exact ⟨fun _ => findE7E7_handshake _ _ _ le_rfl, fun h => by cases h⟩

/-- **One chunk ends, on a residue.**  Every iteration of the handshake loop and every iteration of
the request loop that goes on delete at least two bytes of the buffer; with the fuel `_rx_loop`'s
model gives them, both loops end at their own `break` (no `E7 E7` left for the first; for the
second a buffer on which it would break again).  What a chunk leaves in an ASCII session holds no
`E7 E7`; in a binary session it is empty, a lone `F1`, or an `F1 00` request shorter than
`8 + dlc`. -/
theorem onChunk_terminates_with_residue :
    (∀ (b : Bytes) (i : Nat), findE7E7 b = some i → (b.drop (i + 2)).length + 2 ≤ b.length) ∧
    (∀ (buf buf' : Bytes) (call : Option Call),
      requestStep buf = .next buf' call → buf'.length + 2 ≤ buf.length) ∧
    (∀ (s : ClientState) (chunk : Bytes),
      findE7E7 (handshake (s.buf ++ chunk).length s.binary (s.buf ++ chunk)).2 = none ∧
      ((onChunk s chunk).1.binary = false → findE7E7 (onChunk s chunk).1.buf = none) ∧
      ((onChunk s chunk).1.binary = true →
        Waiting (onChunk s chunk).1.buf ∧
        requestStep (onChunk s chunk).1.buf = .exit (onChunk s chunk).1.buf)) :=
  ⟨fun _ _ => handshake_drop_length, fun _ _ _ => requestStep_next_two,
    fun s chunk => ⟨findE7E7_handshake _ _ _ le_rfl, (onChunk_residue s chunk).1, fun h =>
      have hw := (onChunk_residue s chunk).2 h
      ⟨hw, requestStep_of_waiting hw⟩⟩⟩

end WireTap.Gvret.Residue
