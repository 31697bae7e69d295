import Fuzix.Lib.Table

/-!
# Words in a block of bytes

A block is a function from offsets to bytes. Word `k` of a block is the 16-bit
number in bytes `2k` and `2k + 1`, the low byte first.
-/

namespace Words

open Table

abbrev Block := Nat → UInt8

def zeroBlock : Block := fun _ => 0

def word (b : Block) (k : Nat) : Nat := (b (2 * k)).toNat + 256 * (b (2 * k + 1)).toNat

def setWord (b : Block) (k n : Nat) : Block :=
  put (put b (2 * k) (UInt8.ofNat n)) (2 * k + 1) (UInt8.ofNat (n / 256))

def long (b : Block) (k : Nat) : Nat := word b k + 65536 * word b (k + 1)

def setLong (b : Block) (k n : Nat) : Block :=
  setWord (setWord b k n) (k + 1) (n / 65536)

/-- Words `k` to `k + n - 1` are taken from `f`. -/
def setWords (b : Block) (k : Nat) (f : Nat → Nat) : Nat → Block
  | 0 => b
  | n + 1 => setWord (setWords b k f n) (k + n) (f n)

/-- The `n` bytes from offset `off`. -/
def bytes (b : Block) (off n : Nat) : List UInt8 := (List.range n).map (fun j => b (off + j))

/-- The bytes of `l` are stored from offset `off`. -/
def splice (b : Block) (off : Nat) (l : List UInt8) : Block :=
  fun k => if off ≤ k ∧ k < off + l.length then l.getD (k - off) 0 else b k

theorem word_lt (b : Block) (k : Nat) : word b k < 65536 := by
  have low := (b (2 * k)).toNat_lt
  have high := (b (2 * k + 1)).toNat_lt
  unfold word
  omega

@[simp] theorem word_zeroBlock (k : Nat) : word zeroBlock k = 0 := rfl

@[simp] theorem word_setWord (b : Block) (k n : Nat) :
    word (setWord b k n) k = n % 65536 := by
  have apart : 2 * k ≠ 2 * k + 1 := by omega
  simp only [word, setWord, put_same, put_ne _ _ apart, UInt8.toNat_ofNat']
  omega

theorem word_setWord_ne (b : Block) {k j : Nat} (n : Nat) (h : j ≠ k) :
    word (setWord b k n) j = word b j := by
  have even : 2 * j ≠ 2 * k := by omega
  have odd : 2 * j + 1 ≠ 2 * k + 1 := by omega
  have cross : 2 * j ≠ 2 * k + 1 := by omega
  have cross' : 2 * j + 1 ≠ 2 * k := by omega
  simp only [word, setWord, put_ne _ _ even, put_ne _ _ odd, put_ne _ _ cross,
    put_ne _ _ cross']

theorem word_setWords (b : Block) (k : Nat) (f : Nat → Nat) (n j : Nat) :
    word (setWords b k f n) j =
      if k ≤ j ∧ j < k + n then f (j - k) % 65536 else word b j := by
  induction n with
  | zero =>
    have none : ¬ (k ≤ j ∧ j < k + 0) := by omega
    simp only [setWords, if_neg none]
  | succ n ih =>
    by_cases last : j = k + n
    · subst last
      have inside : k ≤ k + n ∧ k + n < k + (n + 1) := by omega
      simp only [setWords, word_setWord, if_pos inside, Nat.add_sub_cancel_left]
    · rw [setWords, word_setWord_ne _ _ last, ih]
      have same : (k ≤ j ∧ j < k + n) ↔ (k ≤ j ∧ j < k + (n + 1)) := by omega
      simp only [same]

end Words
