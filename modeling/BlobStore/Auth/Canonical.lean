import BlobStore.Auth.SharedKey
import BlobStore.Lib.Paging

/-!
# The canonical form of a request

Client and server see the headers and the parameters of a request in orders of their own. What is
signed does not depend on these orders, nor on the case of names or on blanks around the values of
headers.
-/

namespace BlobStore

/-! ### Blanks -/

namespace SharedKey

variable {low : Lowercase}

/-! ### Headers -/

/-- Lower case for ASCII only. -/
def asciiLowercase : Lowercase where
  lower     := asciiLower
  ascii _ _ := rfl
  cased _ _ := id

end SharedKey
end BlobStore
