import WafWasm.ConfigParser
import WafWasm.Detection

set_option autoImplicit false

namespace WafWasm.ConfigParser
open Detection

def Config.part (config : Config) : Part → Selection
  | .body => ⟨config.bodyInclude, config.body⟩
  | .path => ⟨config.pathInclude, config.path⟩
  | .cookie => ⟨config.cookieInclude, config.cookies⟩
  | .header => ⟨config.headerInclude, config.headers⟩

theorem Config.ext_parts {config config' : Config}
    (htype : config.contentType = config'.contentType)
    (h : ∀ part, config.part part = config'.part part) : config = config' := by
  have hbody := h .body
  have hpath := h .path
  have hcookie := h .cookie
  have hheader := h .header
  cases config
  cases config'
  simp only [Config.part, Selection.mk.injEq] at hbody hpath hcookie hheader htype
  simp only [Config.mk.injEq]
  exact ⟨htype, hbody.1, hbody.2, hpath.1, hpath.2, hheader.1, hheader.2, hcookie.1, hcookie.2⟩

def Config.give (config : Config) (part : Part) : Option Selection → Config
  | none => config
  | some sel => (config.setInclude sel.isInclude part).setKeys sel.keys part

@[simp] theorem Config.give_contentType (config : Config) (part : Part) (given : Option Selection) :
    (config.give part given).contentType = config.contentType := by
  cases given with
  | none => rfl
  | some sel => cases part <;> rfl

@[simp] theorem Config.give_part_self (config : Config) (part : Part) (given : Option Selection) :
    (config.give part given).part part = given.getD (config.part part) := by
  cases given with
  | none => rfl
  | some sel => cases part <;> rfl

theorem Config.give_part_ne (config : Config) {part other : Part} (given : Option Selection)
    (h : other ≠ part) : (config.give part given).part other = config.part other := by
  cases given with
  | none => rfl
  | some sel => cases part <;> cases other <;> first | rfl | exact absurd rfl h

end WafWasm.ConfigParser
