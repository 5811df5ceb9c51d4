import Ecash.Hash.Sha256
import Ecash.Hash.Sha512

/-!
# Keyed hashing

HMAC: the key, brought to the length of a block, is mixed with two pads; the
message is hashed behind the inner one and the result behind the outer one.
-/
namespace Ecash.Hash

/-- HMAC over a hash function with blocks of `block` bytes. -/
def hmac (digest : Bytes → Bytes) (block : Nat) (key message : Bytes) : Bytes :=
  let short := if block < key.length then digest key else key
  let full := short ++ List.replicate (block - short.length) 0
  digest (full.map (· ^^^ 0x5C) ++ digest (full.map (· ^^^ 0x36) ++ message))

def hmacSha256 (key message : Bytes) : Bytes := hmac Sha256.digest 64 key message

def hmacSha512 (key message : Bytes) : Bytes := hmac Sha512.digest 128 key message

theorem length_hmacSha256 (key message : Bytes) : (hmacSha256 key message).length = 32 :=
  Sha256.length_digest _

theorem length_hmacSha512 (key message : Bytes) : (hmacSha512 key message).length = 64 :=
  Sha512.length_digest _

end Ecash.Hash
