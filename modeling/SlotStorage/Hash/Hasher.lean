import SlotStorage.Address
import SlotStorage.Hash.Blake3
import SlotStorage.Hash.Keccak

/-!
# Hash algorithms and salted hashing

Layouts derive slots by hashing.  They work over any function from byte strings
to words, so that their laws can be stated with no more about the hash than
they need; two algorithms are offered by name.
-/

namespace SlotStorage

/-- A function from byte strings to words, with the name it prints under. -/
structure Hasher where
  name : String
  digest : Bytes → Word

/-- The hash algorithms that can be chosen by name. -/
inductive HashAlgorithm where
  | keccak256
  | blake3
  deriving DecidableEq, Repr

namespace HashAlgorithm

instance : Inhabited HashAlgorithm := ⟨.keccak256⟩

def name : HashAlgorithm → String
  | .keccak256 => "Keccak256"
  | .blake3 => "Blake3"

def keyword : HashAlgorithm → String
  | .keccak256 => "keccak256"
  | .blake3 => "blake3"

def ofKeyword? (word : String) : Option HashAlgorithm :=
  if word = "keccak256" then some .keccak256
  else if word = "blake3" then some .blake3
  else none

def digest : HashAlgorithm → Bytes → Word
  | .keccak256, bytes => Octets.ofBytes 32 (Keccak.digest bytes)
  | .blake3, bytes => Octets.ofBytes 32 (Blake3.digest bytes)

def hasher (algorithm : HashAlgorithm) : Hasher :=
  ⟨algorithm.name, algorithm.digest⟩

end HashAlgorithm

/-- A hash function that puts a salt before every key. -/
structure SaltedHasher where
  hasher : Hasher
  salt : Bytes

namespace SaltedHasher

/-- The same function with more bytes at the end of the salt. -/
def withSuffix (salted : SaltedHasher) (suffix : Bytes) : SaltedHasher :=
  { salted with salt := salted.salt ++ suffix }

def digest (salted : SaltedHasher) (key : Bytes) : Word :=
  salted.hasher.digest (salted.salt ++ key)

def slot (salted : SaltedHasher) (key : Bytes) : Slot :=
  ⟨salted.digest key⟩

end SaltedHasher

end SlotStorage
