/-!
Reading bytes as UTF-8, strictly (any fault refuses the whole) and leniently (a fault becomes one
replacement character for the longest stretch that began like a character).
-/
namespace HostReach.Utf8

/-- What the first byte of a character announces: how many bytes follow and the range of the
next. -/
structure Lead where
  following : Nat
  low : Nat
  high : Nat
  bits : Nat

def lead? (b : Nat) : Option Lead :=
  if b < 0x80 then some ⟨0, 0, 0, b⟩
  else if 0xC2 ≤ b && b ≤ 0xDF then some ⟨1, 0x80, 0xBF, b - 0xC0⟩
  else if b == 0xE0 then some ⟨2, 0xA0, 0xBF, 0⟩
  else if b == 0xED then some ⟨2, 0x80, 0x9F, 0xD⟩
  else if 0xE1 ≤ b && b ≤ 0xEF then some ⟨2, 0x80, 0xBF, b - 0xE0⟩
  else if b == 0xF0 then some ⟨3, 0x90, 0xBF, 0⟩
  else if b == 0xF4 then some ⟨3, 0x80, 0x8F, 4⟩
  else if 0xF1 ≤ b && b ≤ 0xF3 then some ⟨3, 0x80, 0xBF, b - 0xF0⟩
  else none

/-- A stretch of bytes: a character, or a beginning that no character continues. -/
inductive Piece where
  | char (c : Char)
  | broken
  deriving DecidableEq, Repr

/-- State between bytes: nothing begun, or a character that still needs `need + 1` bytes. -/
structure Pending where
  need : Nat
  low : Nat
  high : Nat
  bits : Nat

def start (b : Nat) : List Piece × Option Pending :=
  match lead? b with
  | none => ([.broken], none)
  | some l =>
    match l.following with
    | 0 => ([.char (Char.ofNat l.bits)], none)
    | n + 1 => ([], some ⟨n, l.low, l.high, l.bits⟩)

/-- One byte. A byte that does not continue the begun character breaks it off and starts anew. -/
def step (state : Option Pending) (b : Nat) : List Piece × Option Pending :=
  match state with
  | none => start b
  | some p =>
    if p.low ≤ b && b ≤ p.high then
      let bits := p.bits * 64 + (b - 0x80)
      match p.need with
      | 0 => ([.char (Char.ofNat bits)], none)
      | n + 1 => ([], some ⟨n, 0x80, 0xBF, bits⟩)
    else
      let (pieces, next) := start b
      (.broken :: pieces, next)

def pieces : Option Pending → List UInt8 → List Piece
  | none, [] => []
  | some _, [] => [.broken]
  | state, b :: bytes =>
    let (done, next) := step state b.toNat
    done ++ pieces next bytes

def Piece.char? : Piece → Option Char
  | .char c => some c
  | .broken => none

def decode? (bytes : List UInt8) : Option String :=
  ((pieces none bytes).mapM Piece.char?).map String.ofList

/-- The text of any bytes, a replacement character standing for each broken stretch. -/
def decodeLossy (bytes : List UInt8) : String :=
  String.ofList ((pieces none bytes).map fun p => p.char?.getD '\ufffd')

def encode (s : String) : List UInt8 := s.toUTF8.toList

def size (t : List Char) : Nat := t.foldr (fun c n => c.utf8Size + n) 0

end HostReach.Utf8
