import Mathlib.Data.List.TakeWhile

/-!
Arrays of letters that hold a string. A copy writes the string and a terminator, and
leaves the letters behind the terminator as they were.
-/

namespace IrcdHybrid.Buffers

structure CharArray (n : ℕ) where
  bytes : List Char
  size : bytes.length = n

def zeros (n : ℕ) : CharArray n := ⟨List.replicate n '\x00', List.length_replicate⟩

variable {n : ℕ}

/-- The string, up to the terminator. -/
def str (b : CharArray n) : List Char := b.bytes.takeWhile (fun c => decide (c ≠ '\x00'))

theorem write_size (b : CharArray n) (text : List Char) :
    ((text ++ '\x00' :: b.bytes.drop (text.length + 1)).take n).length = n := by
  rw [List.length_take, List.length_append, List.length_cons, List.length_drop, b.size]
  omega

/-- As much of the string as fits, and the terminator. -/
def copy (b : CharArray n) (src : List Char) : CharArray n :=
  let text := src.take (n - 1)
  ⟨(text ++ '\x00' :: b.bytes.drop (text.length + 1)).take n, write_size b text⟩

theorem copy_bytes (b : CharArray n) (src : List Char) (hsrc : src.length < n) :
    (copy b src).bytes = src ++ '\x00' :: b.bytes.drop (src.length + 1) := by
  have htext : src.take (n - 1) = src := List.take_of_length_le (by omega)
  unfold copy
  dsimp only
  rw [htext]
  refine List.take_of_length_le ?_
  rw [List.length_append, List.length_cons, List.length_drop, b.size]
  omega

theorem str_copy (b : CharArray n) (src : List Char) (hsrc : src.length < n)
    (hnul : '\x00' ∉ src) : str (copy b src) = src := by
  have hall : ∀ c ∈ src, decide (c ≠ '\x00') = true := by
    intro c hc
    refine decide_eq_true ?_
    rintro rfl
    exact hnul hc
  unfold str
  rw [copy_bytes b src hsrc, List.takeWhile_append_of_pos hall]
  simp

/-- What is behind the terminator, of the first `k` letters. -/
def leftover (b : CharArray n) (k : ℕ) : List Char := (b.bytes.take k).drop ((str b).length + 1)

/-- The string and what is left behind it are all of the letters. -/
theorem take_eq (b b' : CharArray n) (k : ℕ) (hstr : str b = str b')
    (hleft : leftover b k = leftover b' k) : b.bytes.take k = b'.bytes.take k := by
  have hsplit : ∀ b : CharArray n, ∃ rest, b.bytes = str b ++ rest ∧ rest = [] ∨
      b.bytes = str b ++ '\x00' :: rest := by
    intro b
    have hwhole := List.takeWhile_append_dropWhile (p := fun c => decide (c ≠ '\x00')) (l := b.bytes)
    cases hdrop : b.bytes.dropWhile (fun c => decide (c ≠ '\x00')) with
    | nil =>
      rw [hdrop] at hwhole
      exact ⟨[], Or.inl ⟨hwhole.symm, rfl⟩⟩
    | cons c rest =>
      have hne : b.bytes.dropWhile (fun c => decide (c ≠ '\x00')) ≠ [] := by
        rw [hdrop]
        simp
      have hhead := List.head_dropWhile_not _ hne
      simp only [hdrop, List.head_cons] at hhead
      have hc : c = '\x00' := by simpa using hhead
      rw [hdrop, hc] at hwhole
      exact ⟨rest, Or.inr hwhole.symm⟩
  unfold leftover at hleft
  have hlen : b.bytes.length = b'.bytes.length := by rw [b.size, b'.size]
  obtain ⟨rest, ⟨hb, rfl⟩ | hb⟩ := hsplit b
  · obtain ⟨rest', ⟨hb', rfl⟩ | hb'⟩ := hsplit b'
    · rw [hb, hb', hstr]
    · rw [hb, hb', hstr] at hlen
      simp at hlen
  · obtain ⟨rest', ⟨hb', rfl⟩ | hb'⟩ := hsplit b'
    · rw [hb, hb', hstr] at hlen
      simp at hlen
    · rw [hb, hb', hstr] at hleft ⊢
      by_cases hk : k ≤ (str b').length
      · rw [List.take_append_of_le_length hk, List.take_append_of_le_length hk]
      · obtain ⟨d, hd⟩ : ∃ d, k = (str b').length + 1 + d := ⟨k - (str b').length - 1, by omega⟩
        have htake : ∀ rest : List Char, (str b' ++ '\x00' :: rest).take k =
            str b' ++ '\x00' :: rest.take d := by
          intro rest
          rw [hd, Nat.add_assoc, List.take_length_add_append, Nat.add_comm 1 d, List.take_succ_cons]
        have hdropped : ∀ rest : List Char, (str b' ++ '\x00' :: rest).drop ((str b').length + 1) =
            rest := by
          intro rest
          rw [List.drop_length_add_append]
          rfl
        rw [htake, htake, hdropped, hdropped] at hleft
        rw [htake, htake, hleft]

end IrcdHybrid.Buffers
