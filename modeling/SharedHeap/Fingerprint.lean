import SharedHeap.Bytes.LittleEndian
import SharedHeap.Identity

/-!
# Fingerprints

A fast 64-bit hash of a sequence of words. Each word is mixed in by rotating what is there, adding
the word bit by bit without carry, and multiplying by one odd constant. Values are hashed as the
words that `Plain.words` and the functions here give for them.
-/

namespace SharedHeap.Fingerprint

/-- The odd factor of a mixing step. -/
def factor : UInt64 := 0x517cc1b727220a95

def rotateLeft (w : UInt64) (n : UInt64) : UInt64 := (w <<< n) ||| (w >>> (64 - n))

def mix (h word : UInt64) : UInt64 := (rotateLeft h 5 ^^^ word) * factor

/-- The hash of words in order. -/
def ofWords (ws : List UInt64) : UInt64 := ws.foldl mix 0

/-- A string of bytes as words: eight bytes at a time, then four if there are as many, then one at
a time. -/
def wordsOfBytes : List UInt8 → List UInt64
  | a :: b :: c :: d :: e :: f :: g :: h :: rest =>
    wordOfBytes [a, b, c, d, e, f, g, h] :: wordsOfBytes rest
  | a :: b :: c :: d :: rest => wordOfBytes [a, b, c, d] :: wordsOfBytes rest
  | a :: rest => wordOfBytes [a] :: wordsOfBytes rest
  | [] => []

def wordsOfId (i : AllocatorId) : List UInt64 := [i.major.toUInt64, i.minor.toUInt64]

def wordsOfOffset (o : Offset) : List UInt64 := [o.word]

end SharedHeap.Fingerprint
