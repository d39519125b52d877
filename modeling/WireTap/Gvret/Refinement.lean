import Mathlib.Data.List.GetD
import WireTap.Gvret.Grammar

/-! # The session refines the grammar on clean streams

`_rx_loop` runs its `E7 E7` search on every chunk, also once the session is binary, so it follows
the reference session `R` only on streams in which no `E7 E7` comes after the handshake (`Clean`).
On those it does, after every chunk and for every way of cutting the stream into chunks
(`onChunks_refines`).  The proof relates the loops of `_rx_loop` to `R` run on everything received:

* `refStep` is one step of `R` in the binary state (`refStep_cases`), and a step on some bytes is
  the same step on any extension of them (`refStep_append`);
* one iteration of the request loop is one step of `R` after the resync, or a break on bytes `R`
  waits on (`requestStep_cases`), and `R` does the resync one byte at a time (`refBin_dropWhile`);
* the request loop leaves a residue `r` and makes calls `cs` with
  `refBin (buf ++ c) = cs ++ refBin (r ++ c)` for every continuation `c` (`requestLoop_refBin`),
  and `R` waits on that residue (`refBin_requestLoop`);
* the handshake loop strips the first `E7 E7` and, on a clean stream, finds no other
  (`handshake_of_none`, `handshake_of_some`);
* `Follows` is the invariant that joins them, kept by every chunk (`follows_onChunk`).

A call that raises closes the session; the calls it made are then a prefix of those `R` makes
(`rxLoop_refines`). -/

namespace WireTap.Gvret.Refinement

open WireTap.ByteString WireTap.Can.Id WireTap.Gvret.Session WireTap.Gvret.Grammar

/-! ## One step of `R` -/

/-- One step of `R` in the binary state: the calls it makes and the bytes it leaves, or `none`
when it waits. -/
def refStep : Bytes → Option (List Call × Bytes)
  | [] => none
  | b :: rest =>
    if b ≠ 0xF1 then some ([], rest)
    else match rest with
      | [] => none
      | op :: more =>
        if op ≠ 0x00 then some ((refReply op).toList, more)
        else if 6 ≤ more.length ∧ 6 + (more.getD 5 0).toNat ≤ more.length then
          some ([.tx (more.getD 4 0).toNat (refId (fromBytesLE (more.take 4)))
              ((more.drop 6).take (min (more.getD 5 0).toNat 8))],
            more.drop (6 + (more.getD 5 0).toNat))
        else none

/-- `R` in the binary state on all of `b`. -/
def refBin (b : Bytes) : List Call := refBinary b.length b

theorem refBinary_succ (n : Nat) (b : Bytes) :
    refBinary (n + 1) b = match refStep b with
      | none => []
      | some (out, b') => out ++ refBinary n b' := by
  match b with
  | [] => rfl
  | x :: rest =>
    conv_lhs => unfold refBinary
    unfold refStep
    dsimp only
    split_ifs
    · rfl
    · match rest with
      | [] => rfl
      | op :: more =>
        dsimp only
        split_ifs <;> rfl

/-- **What a step of `R` that does not wait does**: it discards a head byte other than `F1`, answers
an `F1 op` with `op ≠ 00`, or injects a complete `BUILD_FRAME`. -/
theorem refStep_cases {b b' : Bytes} {out : List Call} (h : refStep b = some (out, b')) :
    (∃ x, x ≠ 0xF1 ∧ b = x :: b' ∧ out = []) ∨
    (∃ op, op ≠ 0x00 ∧ b = 0xF1 :: op :: b' ∧ out = (refReply op).toList) ∨
    (∃ more, 6 ≤ more.length ∧ 6 + (more.getD 5 0).toNat ≤ more.length ∧
      b = 0xF1 :: 0x00 :: more ∧
      out = [.tx (more.getD 4 0).toNat (refId (fromBytesLE (more.take 4)))
        ((more.drop 6).take (min (more.getD 5 0).toNat 8))] ∧
      b' = more.drop (6 + (more.getD 5 0).toNat)) := by
  match b with
  | [] => cases h
  | x :: rest =>
    unfold refStep at h
    dsimp only at h
    split_ifs at h with hx
    · cases h; exact .inl ⟨x, hx, rfl, rfl⟩
    · obtain rfl := not_not.1 hx
      match rest with
      | [] => cases h
      | op :: more =>
        dsimp only at h
        split_ifs at h with hop hc <;> cases h
        · exact .inr (.inl ⟨op, hop, rfl, rfl⟩)
        · exact .inr (.inr ⟨more, hc.1, hc.2, by rw [not_not.1 hop], rfl, rfl⟩)

theorem refStep_drop {b b' : Bytes} {out : List Call} (h : refStep b = some (out, b')) :
    ∃ n < b.length, b' = b.drop (n + 1) := by
  rcases refStep_cases h with ⟨x, -, rfl, -⟩ | ⟨op, -, rfl, -⟩ | ⟨more, -, hd, rfl, -, rfl⟩
  · exact ⟨0, by simp, rfl⟩
  · exact ⟨1, by simp, rfl⟩
  · exact ⟨6 + (more.getD 5 0).toNat + 1, by simp only [List.length_cons]; omega, rfl⟩

theorem refStep_length {b b' : Bytes} {out : List Call} (h : refStep b = some (out, b')) :
    b'.length < b.length := by
  obtain ⟨n, hn, rfl⟩ := refStep_drop h
  rw [List.length_drop]; omega

@[simp] theorem refBinary_nil (n : Nat) : refBinary n [] = [] := by cases n <;> rfl

theorem refBinary_fuel (n m : Nat) (b : Bytes) (hn : b.length ≤ n) (hm : b.length ≤ m) :
    refBinary n b = refBinary m b := by
  induction n generalizing m b with
  | zero => rw [List.eq_nil_of_length_eq_zero (Nat.le_zero.1 hn)]; simp
  | succ n ih =>
    match b, m with
    | [], _ => simp
    | x :: rest, 0 => simp at hm
    | x :: rest, m + 1 =>
      rw [refBinary_succ, refBinary_succ]
      split
      · rfl
      · rename_i out b' h
        have := refStep_length h
        simp only at this
        rw [ih m b' (by omega) (by omega)]

theorem refBin_eq {n : Nat} {b : Bytes} (h : b.length ≤ n) : refBinary n b = refBin b :=
  refBinary_fuel n b.length b h le_rfl

@[simp] theorem refBin_nil : refBin [] = [] := rfl

theorem refBin_of_refStep {b b' : Bytes} {out : List Call} (h : refStep b = some (out, b')) :
    refBin b = out ++ refBin b' := by
  have hl := refStep_length h
  obtain ⟨k, hk⟩ : ∃ k, b.length = k + 1 := ⟨b.length - 1, by omega⟩
  rw [refBin, hk, refBinary_succ, h]
  exact congrArg (out ++ ·) (refBin_eq (by omega))

theorem refBin_of_refStep_none {b : Bytes} (h : refStep b = none) : refBin b = [] := by
  cases b with
  | nil => rfl
  | cons x rest => rw [refBin, List.length_cons, refBinary_succ, h]

/-- **A step on a prefix**: a step of `R` that does not wait reads only bytes it has, so more
bytes after them change nothing but what it leaves. -/
theorem refStep_append {b b' : Bytes} {out : List Call} (h : refStep b = some (out, b'))
    (c : Bytes) : refStep (b ++ c) = some (out, b' ++ c) := by
  rcases refStep_cases h with ⟨x, hx, rfl, rfl⟩ | ⟨op, hop, rfl, rfl⟩ | ⟨more, h6, hd, rfl, rfl, rfl⟩
  · simp [refStep, hx]
  · simp [refStep, hop]
  · have h5 : (more ++ c).getD 5 0 = more.getD 5 0 := List.getD_append _ _ _ _ (by omega)
    have h4 : (more ++ c).getD 4 0 = more.getD 4 0 := List.getD_append _ _ _ _ (by omega)
    have hc : 6 ≤ (more ++ c).length ∧ 6 + ((more ++ c).getD 5 0).toNat ≤ (more ++ c).length := by
      simp only [List.length_append, h5]; omega
    simp only [List.cons_append, refStep, ne_eq, not_true_eq_false, ↓reduceIte, if_pos hc]
    rw [h5, h4, List.take_append_of_le_length (by omega), List.drop_append_of_le_length (by omega),
      List.drop_append_of_le_length (by omega),
      List.take_append_of_le_length (by simp only [List.length_drop]; omega)]

theorem refBin_cons_of_ne {x : UInt8} (hx : x ≠ 0xF1) (rest : Bytes) :
    refBin (x :: rest) = refBin rest := by
  have h : refStep (x :: rest) = some ([], rest) := by
    simp only [refStep, ne_eq, hx, not_false_eq_true, ↓reduceIte]
  rw [refBin_of_refStep h, List.nil_append]

theorem refBin_singleton (x : UInt8) : refBin [x] = [] := by
  by_cases hx : x = 0xF1
  · simp [refBin, refBinary, hx]
  · rw [refBin_cons_of_ne hx, refBin_nil]

theorem refBin_dropWhile (l c : Bytes) : refBin (l.dropWhile (· != 0xF1) ++ c) = refBin (l ++ c) := by
  induction l with
  | nil => rfl
  | cons x l ih =>
    by_cases hx : x = 0xF1
    · rw [List.dropWhile_cons_of_neg (by simpa using hx)]
    · rw [List.dropWhile_cons_of_pos (by simpa using hx), ih, List.cons_append, refBin_cons_of_ne hx]

/-! ## The request loop -/

theorem dispatch_eq_refReply (op : UInt8) : dispatch op = refReply op := by
  unfold dispatch refReply
  split_ifs <;> simp_all

theorem refId_eq {c : Nat} (hc : c < 2 ^ 32) : withEff (arbIdOf c) (extendedOf c) = refId c := by
  rw [withEff_eq (lt_trans (arbIdOf_lt c) (by decide)), arbIdOf_eq, refId]
  by_cases h : 2 ^ 31 ≤ c
  · rw [(extendedOf_iff hc).2 h, if_pos h]; simp
  · have hf : extendedOf c = false := by
      rw [← Bool.not_eq_true, extendedOf_iff hc]; exact h
    rw [hf, if_neg h]; simp

/-- **`_try_consume_send_frame` is the `BUILD_FRAME` step of `R`**: it consumes the same bytes and
makes the same call, and it returns `False` exactly where `R` waits. -/
theorem refStep_send (more : Bytes) :
    refStep (0xF1 :: 0x00 :: more) =
      (tryConsumeSendFrame (0xF1 :: 0x00 :: more)).map fun p => ([p.2], p.1) := by
  have hid : fromBytesLE (more.take 4) < 2 ^ 32 :=
    calc fromBytesLE (more.take 4) < 256 ^ (more.take 4).length := fromBytesLE_lt _
      _ ≤ 256 ^ 4 := Nat.pow_le_pow_right (by decide) (List.length_take_le _ _)
      _ = 2 ^ 32 := rfl
  rw [tryConsumeSendFrame_cons]
  simp only [refStep, ne_eq, not_true_eq_false, ↓reduceIte]
  split_ifs
  · rw [Option.map_some', refId_eq hid]
  · rfl

theorem refBin_of_waiting {b : Bytes} (h : Waiting b) : refBin b = [] := by
  match b, h with
  | [], _ => rfl
  | [x], _ => exact refBin_singleton x
  | x :: y :: more, h =>
    obtain ⟨rfl, rfl⟩ : x = 0xF1 ∧ y = 0x00 := by
      rcases h with h | h | ⟨h2, -⟩
      · cases h
      · cases h
      · simpa using h2
    exact refBin_of_refStep_none (by rw [refStep_send, (tryConsumeSendFrame_eq_none_iff more).2 h]; rfl)

theorem head_dropWhile {l t : Bytes} {b : UInt8} (h : l.dropWhile (· != 0xF1) = b :: t) : b = 0xF1 := by
  have := List.head_dropWhile_not (· != 0xF1) l (by simp [h])
  simpa [h] using this

/-- **One iteration of the request loop** against `R` on the resynced buffer: it consumes what a
step of `R` consumes and makes the same calls, or it breaks on a buffer it waits on. -/
theorem requestStep_cases (buf : Bytes) :
    (∃ buf' call, requestStep buf = .next buf' call ∧
      refStep (buf.dropWhile (· != 0xF1)) = some (call.toList, buf')) ∨
    (requestStep buf = .exit (buf.dropWhile (· != 0xF1)) ∧ Waiting (buf.dropWhile (· != 0xF1))) := by
  unfold requestStep
  split
  · rename_i b cmd rest hd
    obtain rfl := head_dropWhile hd
    rw [hd]
    simp only [ne_eq, not_true_eq_false, ↓reduceIte]
    split_ifs with hcmd
    · subst hcmd
      split
      · rename_i buf' call hc
        exact .inl ⟨buf', some call, rfl, by rw [refStep_send, hc]; rfl⟩
      · rename_i hc
        exact .inr ⟨rfl, (tryConsumeSendFrame_eq_none_iff rest).1 hc⟩
    · refine .inl ⟨rest, dispatch cmd, rfl, ?_⟩
      simp only [refStep, ne_eq, not_true_eq_false, ↓reduceIte, hcmd, not_false_eq_true,
        dispatch_eq_refReply]
  · rename_i hne
    refine .inr ⟨rfl, ?_⟩
    rcases hd : buf.dropWhile (· != 0xF1) with _ | ⟨x, _ | ⟨y, l⟩⟩
    · exact .inl rfl
    · exact .inr (.inl (by rw [head_dropWhile hd]))
    · exact absurd hd (hne x y l)

theorem refStep_of_requestStep {buf buf' : Bytes} {call : Option Call}
    (h : requestStep buf = .next buf' call) :
    refStep (buf.dropWhile (· != 0xF1)) = some (call.toList, buf') := by
  rcases requestStep_cases buf with ⟨_, _, hs, hr⟩ | ⟨hs, -⟩ <;> rw [hs] at h <;> cases h
  exact hr

theorem requestStep_exit {buf buf' : Bytes} (h : requestStep buf = .exit buf') :
    buf' = buf.dropWhile (· != 0xF1) ∧ Waiting buf' := by
  rcases requestStep_cases buf with ⟨_, _, hs, -⟩ | ⟨hs, hr⟩ <;> rw [hs] at h <;> cases h
  exact ⟨rfl, hr⟩

theorem refBin_of_next {buf buf' : Bytes} {call : Option Call} (h : requestStep buf = .next buf' call)
    (c : Bytes) : refBin (buf ++ c) = call.toList ++ refBin (buf' ++ c) := by
  rw [← refBin_dropWhile, refBin_of_refStep (refStep_append (refStep_of_requestStep h) c)]

theorem requestStep_next_suffix {buf buf' : Bytes} {call : Option Call}
    (h : requestStep buf = .next buf' call) : buf' <:+ buf := by
  obtain ⟨n, -, hn⟩ := refStep_drop (refStep_of_requestStep h)
  exact hn ▸ (List.drop_suffix _ _).trans (List.dropWhile_suffix _)

theorem requestStep_next_length {buf buf' : Bytes} {call : Option Call}
    (h : requestStep buf = .next buf' call) : buf'.length < buf.length :=
  lt_of_lt_of_le (refStep_length (refStep_of_requestStep h)) (List.dropWhile_suffix _).length_le

/-- **The request loop is `R` up to its residue**: for every fuel and every continuation `c`,
`R` on `buf ++ c` makes the loop's calls, then goes on from the residue. -/
theorem requestLoop_refBin (fuel : Nat) (buf c : Bytes) :
    refBin (buf ++ c) = (requestLoop fuel buf).2 ++ refBin ((requestLoop fuel buf).1 ++ c) := by
  induction fuel generalizing buf with
  | zero => rfl
  | succ fuel ih =>
    unfold requestLoop
    split
    · rename_i h
      rw [List.nil_append, ← refBin_dropWhile, ← (requestStep_exit h).1]
    · rename_i buf' call h
      rw [refBin_of_next h, ih buf', List.append_assoc]

/-- **With the fuel `_rx_loop` gives it, the loop stops at a `break`**: every iteration that goes
on shortens the buffer, so the loop breaks before the fuel runs out, on a buffer it waits on. -/
theorem requestLoop_waiting {fuel : Nat} {buf : Bytes} (hf : buf.length ≤ fuel) :
    Waiting (requestLoop fuel buf).1 := by
  induction fuel generalizing buf with
  | zero => rw [List.eq_nil_of_length_eq_zero (Nat.le_zero.1 hf)]; exact .inl rfl
  | succ fuel ih =>
    unfold requestLoop
    split
    · rename_i h
      exact (requestStep_exit h).2
    · rename_i h
      exact ih (by have := requestStep_next_length h; omega)

theorem refBin_requestLoop {fuel : Nat} {buf : Bytes} (hf : buf.length ≤ fuel) :
    refBin (requestLoop fuel buf).1 = [] :=
  refBin_of_waiting (requestLoop_waiting hf)

theorem requestLoop_suffix (fuel : Nat) (buf : Bytes) : (requestLoop fuel buf).1 <:+ buf := by
  induction fuel generalizing buf with
  | zero => exact List.suffix_refl _
  | succ fuel ih =>
    unfold requestLoop
    split
    · rename_i h
      rw [(requestStep_exit h).1]; exact List.dropWhile_suffix _
    · rename_i h
      exact (ih _).trans (requestStep_next_suffix h)

/-! ## The handshake -/

theorem refAscii_eq : ∀ b : Bytes, refAscii b = (findE7E7 b).map (fun i => b.drop (i + 2))
  | a :: b :: rest => by
    unfold refAscii findE7E7
    split_ifs
    · rfl
    · rw [refAscii_eq (b :: rest), Option.map_map]; rfl
  | [] => rfl
  | [_] => rfl

theorem refAscii_append : ∀ {a r : Bytes}, refAscii a = some r → ∀ c, refAscii (a ++ c) = some (r ++ c)
  | x :: y :: l, r, h, c => by
    rw [List.cons_append, List.cons_append]
    unfold refAscii at h ⊢
    split_ifs at h ⊢
    · cases h; rfl
    · exact refAscii_append h c
  | [], _, h, _ => by cases h
  | [_], _, h, _ => by cases h

theorem findE7E7_append_left : ∀ {l : Bytes} (c : Bytes), findE7E7 (l ++ c) = none → findE7E7 l = none
  | x :: y :: l, c, h => by
    rw [List.cons_append, List.cons_append] at h
    unfold findE7E7 at h ⊢
    split_ifs at h ⊢
    rw [Option.map_eq_none'] at h ⊢
    exact findE7E7_append_left c h
  | [], _, _ => rfl
  | [_], _, _ => rfl

theorem findE7E7_of_cons {x : UInt8} {l : Bytes} (h : findE7E7 (x :: l) = none) : findE7E7 l = none := by
  match l with
  | [] => rfl
  | y :: l =>
    unfold findE7E7 at h
    split_ifs at h
    exact Option.map_eq_none'.1 h

theorem findE7E7_append_right (l : Bytes) {c : Bytes} (h : findE7E7 (l ++ c) = none) :
    findE7E7 c = none := by
  induction l with
  | nil => exact h
  | cons x l ih => exact ih (findE7E7_of_cons h)

theorem findE7E7_of_infix {l L : Bytes} (hl : l <:+: L) (hL : findE7E7 L = none) : findE7E7 l = none := by
  obtain ⟨s, t, rfl⟩ := hl
  rw [List.append_assoc] at hL
  exact findE7E7_append_left t (findE7E7_append_right s hL)

theorem handshake_of_none {b : Bytes} (h : findE7E7 b = none) (n : Nat) (binary : Bool) :
    handshake n binary b = (binary, b) := by
  cases n <;> simp only [handshake, h]

theorem handshake_of_some {b : Bytes} {i : Nat} (h : findE7E7 b = some i)
    (h' : findE7E7 (b.drop (i + 2)) = none) (n : Nat) (binary : Bool) :
    handshake (n + 1) binary b = (true, b.drop (i + 2)) := by
  simp only [handshake, h, handshake_of_none h']

/-! ## Chunks -/

/-- **A clean stream**: no `E7 E7` after the one that ends the handshake. -/
def Clean (stream : Bytes) : Prop := (refAscii stream).bind findE7E7 = none

instance (stream : Bytes) : Decidable (Clean stream) :=
  inferInstanceAs (Decidable ((refAscii stream).bind findE7E7 = none))

theorem findE7E7_of_clean {P rest F : Bytes} (hc : Clean (P ++ F)) (hP : refAscii P = some rest) :
    findE7E7 (rest ++ F) = none := by
  rwa [Clean, refAscii_append hP F] at hc

/-- **`_rx_loop` follows `R`** after the bytes `P`, in the state `s`, having made the calls `out`:
still ASCII with all of `P` buffered and no `E7 E7` in it, or binary with a buffer that ends the
bytes `R` has left and on which `R` waits, every call `R` makes on the bytes left being first the
calls `out`. -/
inductive Follows : Bytes → ClientState → List Call → Prop
  | ascii {P : Bytes} (h : findE7E7 P = none) : Follows P ⟨false, P⟩ []
  | binary {P rest buf : Bytes} {out : List Call} (hP : refAscii P = some rest)
      (hsuf : buf <:+ rest) (hwait : refBin buf = [])
      (hcalls : ∀ c, refBin (rest ++ c) = out ++ refBin (buf ++ c)) : Follows P ⟨true, buf⟩ out

theorem refSession_of_follows {P : Bytes} {s : ClientState} {out : List Call}
    (h : Follows P s out) : refSession P = out := by
  cases h with
  | ascii h => simp [refSession, refAscii_eq, h]
  | binary hP _ hwait hcalls =>
    have := hcalls []
    rw [List.append_nil, List.append_nil, hwait, List.append_nil] at this
    simpa only [refSession, hP] using this

theorem onChunk_of_handshake {binary : Bool} {buf ch b : Bytes}
    (h : handshake (buf ++ ch).length binary (buf ++ ch) = (true, b)) :
    onChunk ⟨binary, buf⟩ ch = (⟨true, (requestLoop b.length b).1⟩, (requestLoop b.length b).2) := by
  simp only [onChunk, h, ↓reduceIte]

theorem follows_requestLoop {P rest b : Bytes} {out : List Call} (hP : refAscii P = some rest)
    (hsuf : b <:+ rest) (hcalls : ∀ c, refBin (rest ++ c) = out ++ refBin (b ++ c)) :
    Follows P ⟨true, (requestLoop b.length b).1⟩ (out ++ (requestLoop b.length b).2) :=
  .binary hP ((requestLoop_suffix _ _).trans hsuf) (refBin_requestLoop le_rfl)
    (fun c => by rw [hcalls, requestLoop_refBin b.length b c, List.append_assoc])

theorem follows_onChunk_ascii {P ch F : Bytes} (hc : Clean (P ++ ch ++ F)) :
    Follows (P ++ ch) (onChunk ⟨false, P⟩ ch).1 ([] ++ (onChunk ⟨false, P⟩ ch).2) := by
  cases hfind : findE7E7 (P ++ ch) with
  | none =>
    have : onChunk ⟨false, P⟩ ch = (⟨false, P ++ ch⟩, []) := by
      simp only [onChunk, handshake_of_none hfind, Bool.false_eq_true, ↓reduceIte]
    rw [this]
    exact .ascii hfind
  | some i =>
    have hrest : refAscii (P ++ ch) = some ((P ++ ch).drop (i + 2)) := by
      rw [refAscii_eq, hfind]; rfl
    have hnone := findE7E7_append_left F (findE7E7_of_clean hc hrest)
    obtain ⟨n, hn⟩ : ∃ n, (P ++ ch).length = n + 1 := by
      match P ++ ch, hfind with
      | x :: l, _ => exact ⟨l.length, rfl⟩
    rw [onChunk_of_handshake (by rw [hn, handshake_of_some hfind hnone])]
    exact follows_requestLoop hrest (List.suffix_refl _) (fun c => rfl)

theorem follows_onChunk_binary {P rest buf ch F : Bytes} {out : List Call}
    (hP : refAscii P = some rest) (hsuf : buf <:+ rest)
    (hcalls : ∀ c, refBin (rest ++ c) = out ++ refBin (buf ++ c)) (hc : Clean (P ++ ch ++ F)) :
    Follows (P ++ ch) (onChunk ⟨true, buf⟩ ch).1 (out ++ (onChunk ⟨true, buf⟩ ch).2) := by
  rw [List.append_assoc] at hc
  obtain ⟨t, rfl⟩ := hsuf
  have hnone : findE7E7 (buf ++ ch) = none :=
    findE7E7_of_infix ⟨t, F, by simp only [List.append_assoc]⟩ (findE7E7_of_clean hc hP)
  rw [onChunk_of_handshake (handshake_of_none hnone _ _)]
  exact follows_requestLoop (refAscii_append hP ch) ⟨t, (List.append_assoc _ _ _).symm⟩
    (fun c => by simpa only [List.append_assoc] using hcalls (ch ++ c))

/-- **One chunk keeps `Follows`** on a clean stream. -/
theorem follows_onChunk {P ch F : Bytes} {s : ClientState} {out : List Call} (h : Follows P s out)
    (hc : Clean (P ++ ch ++ F)) : Follows (P ++ ch) (onChunk s ch).1 (out ++ (onChunk s ch).2) := by
  cases h with
  | ascii _ => exact follows_onChunk_ascii hc
  | binary hP hsuf _ hcalls => exact follows_onChunk_binary hP hsuf hcalls hc

theorem follows_onChunks {P F : Bytes} {s : ClientState} {out : List Call} (cs : List Bytes)
    (h : Follows P s out) (hc : Clean (P ++ cs.flatten ++ F)) :
    Follows (P ++ cs.flatten) (onChunks s cs).1 (out ++ (onChunks s cs).2) := by
  induction cs generalizing P s out with
  | nil => simpa only [onChunks, List.flatten_nil, List.append_nil] using h
  | cons ch cs ih =>
    have h1 := follows_onChunk h (show Clean (P ++ ch ++ (cs.flatten ++ F)) by
      simpa only [List.flatten_cons, List.append_assoc] using hc)
    have := ih h1 (by simpa only [List.flatten_cons, List.append_assoc] using hc)
    simpa only [onChunks, List.flatten_cons, List.append_assoc] using this

/-- The calls made over chunks whose bytes start a clean stream are the calls `R` makes on them. -/
theorem onChunks_eq_refSession {cs : List Bytes} {F : Bytes} (hc : Clean (cs.flatten ++ F)) :
    (onChunks ClientState.init cs).2 = refSession cs.flatten := by
  have h := follows_onChunks cs (Follows.ascii rfl : Follows [] ClientState.init [])
    (show Clean ([] ++ cs.flatten ++ F) by rwa [List.nil_append])
  simpa only [List.nil_append] using (refSession_of_follows h).symm

/-- **`_rx_loop` refines `R` on clean streams**: after every chunk, the calls made so far are the
calls `R` makes on the bytes received so far. -/
theorem onChunks_refines (chunks : List Bytes) (hc : Clean chunks.flatten) (k : Nat) :
    (onChunks ClientState.init (chunks.take k)).2 = refSession (chunks.take k).flatten :=
  onChunks_eq_refSession (F := (chunks.drop k).flatten)
    (by rwa [← List.flatten_append, List.take_append_drop])

/-- A `BUILD_FRAME` cut between two chunks, after a `DEV_INFO` request: after the second chunk
only the reply has been made, as `R` makes it. -/
theorem onChunks_refines_split_frame :
    Clean [[0x00, 0xE7], [0xE7, 0xF1, 0x07, 0xF1, 0x00, 0x23, 1], [0, 0, 0, 2, 0xAA, 0xBB]].flatten ∧
    (onChunks ClientState.init
        ([[0x00, 0xE7], [0xE7, 0xF1, 0x07, 0xF1, 0x00, 0x23, 1], [0, 0, 0, 2, 0xAA, 0xBB]].take 2)).2 =
      refSession ([[0x00, 0xE7], [0xE7, 0xF1, 0x07, 0xF1, 0x00, 0x23, 1],
        [0, 0, 0, 2, 0xAA, 0xBB]].take 2).flatten :=
  ⟨by decide, onChunks_refines _ (by decide) 2⟩

/-! ## Calls that raise

A call that raises ends `_rx_loop` through `finally: self.close()`, and so does the end of the
connection.  Neither adds or reorders a call: the calls a session has made are always a prefix of
the calls `onChunks` makes on the chunks it received (`rxLoop_calls_prefix`), and so, on a clean
stream, a prefix of the calls `R` makes (`rxLoop_refines`). -/

/-- The chunks a session receives: those `recv` returns before the connection ends. -/
def dataChunks : List Recv → List Bytes
  | [] => []
  | .data chunk :: rs => chunk :: dataChunks rs
  | .timeout :: rs => dataChunks rs
  | .eof :: _ | .fail :: _ => []

theorem callsUntilRaise_prefix (raises : Nat → Call → Bool) (k : Nat) (cs : List Call) :
    (callsUntilRaise raises k cs).1 <+: cs ∧
      ((callsUntilRaise raises k cs).2 = false → (callsUntilRaise raises k cs).1 = cs) := by
  induction cs generalizing k with
  | nil => exact ⟨List.prefix_refl _, fun _ => rfl⟩
  | cons c cs ih =>
    unfold callsUntilRaise
    split_ifs
    · exact ⟨⟨cs, rfl⟩, fun h => by cases h⟩
    · obtain ⟨hp, he⟩ := ih (k + 1)
      exact ⟨(List.prefix_cons_inj c).2 hp, fun h => by rw [he h]⟩

theorem onChunks_append (s : ClientState) (P Q : List Bytes) :
    onChunks s (P ++ Q) =
      ((onChunks (onChunks s P).1 Q).1, (onChunks s P).2 ++ (onChunks (onChunks s P).1 Q).2) := by
  induction P generalizing s with
  | nil => rfl
  | cons c P ih =>
    rw [List.cons_append, onChunks.eq_2, onChunks.eq_2, ih, List.append_assoc]

/-- **What `_rx_loop` has made after the chunks `P`**: while the session is alive, the parser state
and the calls of `onChunks` on `P`; once it is closed, a prefix of those calls. -/
inductive Tracks (P : List Bytes) : RxState → Prop
  | alive : Tracks P ⟨(onChunks ClientState.init P).1, (onChunks ClientState.init P).2, true⟩
  | closed {client : ClientState} {calls : List Call}
      (h : calls <+: (onChunks ClientState.init P).2) : Tracks P ⟨client, calls, false⟩

theorem rxLoop_closed (raises : Nat → Call → Bool) (client : ClientState) (calls : List Call)
    (rs : List Recv) : rxLoop raises ⟨client, calls, false⟩ rs = ⟨client, calls, false⟩ := by
  cases rs <;> rfl

theorem tracks_rxStep_data (raises : Nat → Call → Bool) {P : List Bytes} (chunk : Bytes) :
    Tracks (P ++ [chunk]) (rxStep raises
      ⟨(onChunks ClientState.init P).1, (onChunks ClientState.init P).2, true⟩ (.data chunk)) := by
  obtain ⟨hp, he⟩ := callsUntilRaise_prefix raises (onChunks ClientState.init P).2.length
    (onChunk (onChunks ClientState.init P).1 chunk).2
  have happ : onChunks ClientState.init (P ++ [chunk]) =
      ((onChunk (onChunks ClientState.init P).1 chunk).1,
        (onChunks ClientState.init P).2 ++ (onChunk (onChunks ClientState.init P).1 chunk).2) := by
    simp only [onChunks_append, onChunks, List.append_nil]
  simp only [rxStep]
  cases hm : (callsUntilRaise raises (onChunks ClientState.init P).2.length
      (onChunk (onChunks ClientState.init P).1 chunk).2).2
  · have h := Tracks.alive (P := P ++ [chunk])
    rw [happ, ← he hm] at h
    exact h
  · exact .closed (by rw [happ]; exact (List.prefix_append_right_inj _).2 hp)

theorem rxLoop_tracks (raises : Nat → Call → Bool) (rs : List Recv) {P : List Bytes} {st : RxState}
    (h : Tracks P st) :
    (rxLoop raises st rs).calls <+: (onChunks ClientState.init (P ++ dataChunks rs)).2 := by
  induction rs generalizing P st with
  | nil => cases h with
    | alive =>
      simp only [rxLoop, dataChunks, List.append_nil]
      exact List.prefix_refl _
    | closed h => simpa only [dataChunks, List.append_nil] using h
  | cons r rs ih =>
    cases h with
    | closed h =>
      rw [rxLoop_closed, onChunks_append]
      exact h.trans (List.prefix_append _ _)
    | alive =>
      cases r with
      | data chunk =>
        simpa only [dataChunks, List.append_assoc, List.singleton_append] using
          ih (tracks_rxStep_data raises chunk)
      | timeout => exact ih .alive
      | eof | fail =>
        simp only [rxLoop, if_true, rxStep, rxLoop_closed, dataChunks, List.append_nil]
        exact List.prefix_refl _

theorem rxLoop_calls_prefix (raises : Nat → Call → Bool) (rs : List Recv) :
    (rxLoop raises RxState.init rs).calls <+: (onChunks ClientState.init (dataChunks rs)).2 :=
  rxLoop_tracks raises rs (Tracks.alive : Tracks [] RxState.init)

/-- **Raising calls only cut the session short**: on a clean stream, whatever calls raise and
however the stream is cut into chunks, the calls a session has made are, in order, a prefix of the
calls `R` makes on the bytes received. -/
theorem rxLoop_refines (raises : Nat → Call → Bool) (rs : List Recv)
    (hc : Clean (dataChunks rs).flatten) :
    (rxLoop raises RxState.init rs).calls <+: refSession (dataChunks rs).flatten :=
  onChunks_eq_refSession (F := []) (by rwa [List.append_nil]) ▸ rxLoop_calls_prefix raises rs

/-- The second of three requests raises: the session closes with the calls made so far, the
first two of the three `R` makes. -/
theorem rxLoop_refines_keepalive_raises :
    Clean (dataChunks
      [.data [0xE7, 0xE7, 0xF1, 0x07, 0xF1, 0x09], .timeout, .data [0xF1, 0x0C]]).flatten ∧
    (rxLoop (fun k _ => k == 1) RxState.init
        [.data [0xE7, 0xE7, 0xF1, 0x07, 0xF1, 0x09], .timeout, .data [0xF1, 0x0C]]).calls <+:
      refSession (dataChunks
        [.data [0xE7, 0xE7, 0xF1, 0x07, 0xF1, 0x09], .timeout, .data [0xF1, 0x0C]]).flatten :=
  ⟨by decide, rxLoop_refines _ _ (by decide)⟩

end WireTap.Gvret.Refinement
