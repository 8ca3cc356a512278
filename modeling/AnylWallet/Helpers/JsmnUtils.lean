import AnylWallet.Helpers.Jsmn

/-!
# `helpers/jsmn_utils`: reading tokens from a buffer

* `JsonBuf` is the memory around a buffer: the decoders read a token's text where its positions
  point to, and one of them stores a `NUL` behind a message.
* `jsoneq` compares a token with a key.
-/

namespace AnylWallet.Helpers

/-- A buffer in memory. -/
structure JsonBuf where
  /-- What lies in front of it. -/
  before : List UInt8
  /-- The buffer. -/
  bytes : List UInt8
  /-- What lies behind it. -/
  after : List UInt8
deriving DecidableEq, Repr

/-- The memory from `buf + pos` on. -/
def JsonBuf.text (buf : JsonBuf) (pos : ℤ) : List UInt8 :=
  (buf.before ++ buf.bytes ++ buf.after).drop (buf.before.length + pos).toNat

/-- The memory from a position in the buffer on. -/
theorem JsonBuf.text_natCast (buf : JsonBuf) (pos : ℕ) :
    buf.text pos = (buf.bytes ++ buf.after).drop pos := by
  rw [JsonBuf.text, List.append_assoc, ← Nat.cast_add, Int.toNat_natCast, ← List.drop_drop,
    List.drop_left]

/-- Stores a `NUL` at `buf + pos`. -/
def JsonBuf.terminate (buf : JsonBuf) (pos : ℤ) : Except Fault JsonBuf :=
  if 0 ≤ pos ∧ pos < buf.bytes.length then
    .ok { buf with bytes := buf.bytes.set pos.toNat 0 }
  else .error .outside

/-- A `NUL` can be stored in the buffer, and only there. -/
theorem JsonBuf.terminate_ok_iff (buf : JsonBuf) (pos : ℤ) :
    (∃ buf', buf.terminate pos = .ok buf') ↔ 0 ≤ pos ∧ pos < buf.bytes.length := by
  unfold JsonBuf.terminate
  split
  · rename_i h
    exact ⟨fun _ => h, fun _ => ⟨_, rfl⟩⟩
  · rename_i h
    exact ⟨fun ⟨_, h'⟩ => absurd h' (by simp), fun h' => absurd h' h⟩

/-- Storing a `NUL` does not change the size of the buffer. -/
theorem JsonBuf.length_terminate {buf buf' : JsonBuf} {pos : ℤ}
    (h : buf.terminate pos = .ok buf') : buf'.bytes.length = buf.bytes.length := by
  unfold JsonBuf.terminate at h
  split at h
  · cases h
    exact List.length_set
  · cases h

/-- `jsoneq`: whether the token is the string `s`. Source: `helpers/jsmn_utils.c` -/
def jsoneq (json : JsonBuf) (tok : Jsmntok) (s : List UInt8) : Bool :=
  tok.type = .string ∧ (s.length : ℤ) = tok.stop - tok.start ∧
    (json.text tok.start).take s.length = s

end AnylWallet.Helpers
