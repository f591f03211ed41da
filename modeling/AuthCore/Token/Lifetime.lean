set_option autoImplicit false

namespace AuthCore.Token

def longestLifetime : Nat := 7 * 24 * 60

end AuthCore.Token
