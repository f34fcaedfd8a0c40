import TorrentMq.Bytes.Reader

/-! Texts as the bytes that hold them. -/

set_option autoImplicit false

namespace Bytes

def text (literal : String) : Bytes := literal.toUTF8.data.toList

end Bytes
