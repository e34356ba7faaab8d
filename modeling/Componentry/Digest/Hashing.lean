import Componentry.Digest.Md5
import Componentry.Digest.Sha1
import Componentry.Digest.Sha256
import Componentry.Files.Encode

/-!
# Hash functions

The hash functions that name documents, cache entries and options. They are a value, so that what
holds of any choice of them can be said of any choice of them.
-/

namespace Componentry

/-- Functions from texts to hexadecimal digests. -/
structure Hashing where
  /-- Names the text of a document. -/
  source : Text → Text
  /-- Names a cache entry. -/
  entry : Text → Text
  /-- Names a set of options. -/
  options : Text → Text

/-- Documents are named by SHA-1, entries by SHA-256, and options by MD5. -/
def Hashing.standard : Hashing where
  source text := Digest.Sha1.hex (Text.bytes text)
  entry text := Digest.Sha256.hex (Text.bytes text)
  options text := Digest.Md5.hex (Text.bytes text)

end Componentry
