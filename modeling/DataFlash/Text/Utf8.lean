namespace DataFlash.Utf8

def replacement : Char := '\uFFFD'

/-- What the bytes read so far leave open: nothing, or a character with the bits `value` that
needs `more` bytes, the next of them between `low` and `high`. -/
inductive Pending where
  | idle
  | within (value more : Nat) (low high : UInt8)
  deriving DecidableEq, Repr, Inhabited

/-- A reading in progress: the characters found, newest first, and what is open. -/
structure Reading where
  found : List Char := []
  pending : Pending := .idle
  deriving DecidableEq, Repr, Inhabited

def Reading.push (r : Reading) (c : Char) : Reading := { found := c :: r.found }

def Reading.await (r : Reading) (value more : Nat) (low high : UInt8) : Reading :=
  { found := r.found, pending := .within value more low high }

/-- The first byte of a character. The second byte is restricted after `E0`, `ED`, `F0` and `F4`:
that excludes overlong forms, surrogates and what lies above U+10FFFF. -/
def Reading.start (r : Reading) (b : UInt8) : Reading :=
  if b < 0x80 then r.push (Char.ofNat b.toNat)
  else if b < 0xC2 then r.push replacement
  else if b < 0xE0 then r.await (b.toNat - 0xC0) 1 0x80 0xBF
  else if b = 0xE0 then r.await 0 2 0xA0 0xBF
  else if b = 0xED then r.await 0xD 2 0x80 0x9F
  else if b < 0xF0 then r.await (b.toNat - 0xE0) 2 0x80 0xBF
  else if b = 0xF0 then r.await 0 3 0x90 0xBF
  else if b < 0xF4 then r.await (b.toNat - 0xF0) 3 0x80 0xBF
  else if b = 0xF4 then r.await 4 3 0x80 0x8F
  else r.push replacement

/-- A byte that cannot continue the open character ends it as damaged and is read afresh. -/
def Reading.step (r : Reading) (b : UInt8) : Reading :=
  match r.pending with
  | .idle => r.start b
  | .within value more low high =>
    if low ≤ b ∧ b ≤ high then
      let value := value * 64 + (b.toNat - 0x80)
      if more ≤ 1 then r.push (Char.ofNat value) else r.await value (more - 1) 0x80 0xBF
    else (r.push replacement).start b

def Reading.finish (r : Reading) : List Char :=
  match r.pending with
  | .idle => r.found.reverse
  | .within .. => (replacement :: r.found).reverse

/-- The characters of a byte sequence. -/
def decode (bytes : List UInt8) : List Char :=
  (bytes.foldl Reading.step {}).finish

def encode (text : String) : List UInt8 :=
  text.toList.flatMap String.utf8EncodeChar

end DataFlash.Utf8
