import ConfluxSdk.Native.CommonJS

/-!
# Currency units

Model of `libcfxcore/currency`. A `Drip` text goes to the constructor of a `u256`, the
other units to the one of a decimal float of fifty digits. Both are types of another
library: the constructor of the integer is that of a `Boost`, the float a `DecFloat50`.

The literal operators pass their text on to these functions. `Drip2CFXDouble`, which rounds to
a `double`, is left out.
-/

namespace ConfluxSdk

/-- `cpp_dec_float_50`: its constructors from a text and from an integral `double`, the
    product, and the conversion to a `u256`. `none` stands for an exception. -/
structure DecFloat50 where
  Num : Type
  ofText : Str → Option Num
  ofDouble : Nat → Num
  mul : Num → Num → Num
  toU256 : Num → U256

namespace Currency

variable (boost : Boost) (dec : DecFloat50)

/-- `Drip(const std::string&)`. -/
def drip (value : Str) : Option U256 := (boost.number 32 value).map (Fin.ofNat (2 ^ 256))

/-- The functions of the units that are larger than a drip, for the ratio of the unit. -/
def scaled (ratio : Nat) (value : dec.Num) : U256 := dec.toU256 (dec.mul (dec.ofDouble ratio) value)

/-- `GDrip(DecFloat50)`. -/
def gDripNum (value : dec.Num) : U256 := scaled dec (10 ^ 9) value

/-- `GDrip(const std::string&)`. -/
def gDrip (value : Str) : Option U256 := (dec.ofText value).map (gDripNum dec)

/-- `uCFX(cpp_dec_float_50)`. -/
def uCFXNum (value : dec.Num) : U256 := scaled dec (10 ^ 12) value

/-- `uCFX(const std::string&)`. -/
def uCFX (value : Str) : Option U256 := (dec.ofText value).map (uCFXNum dec)

/-- `CFX(DecFloat50)`. -/
def cfxNum (value : dec.Num) : U256 := scaled dec (10 ^ 18) value

/-- `CFX(const std::string&)`. -/
def cfx (value : Str) : Option U256 := (dec.ofText value).map (cfxNum dec)

end Currency

end ConfluxSdk
