import WafWasm.UnorderedContainers

set_option autoImplicit false

namespace WafWasm.Common
open UnorderedContainers

abbrev Bytes := List UInt8

/-- The bytes of an ASCII literal of the source. -/
def bytes (s : String) : Bytes := s.toList.map Char.toUInt8

abbrev space : UInt8 := 0x20
abbrev quote : UInt8 := 0x22
abbrev percent : UInt8 := 0x25
abbrev ampersand : UInt8 := 0x26
abbrev plus : UInt8 := 0x2B
abbrev semicolon : UInt8 := 0x3B
abbrev equals : UInt8 := 0x3D
abbrev questionMark : UInt8 := 0x3F

abbrev Keys := Finset Bytes
abbrev QueryParams := UnorderedMap Bytes Bytes

def urlencoded : Bytes := bytes "application/x-www-form-urlencoded"

end WafWasm.Common
