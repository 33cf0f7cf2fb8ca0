/-! Labels of host names in ASCII. The characters beyond ASCII are written behind the others as
distances in a positional system whose digit values adapt to the distances so far. -/
namespace FlowScript.Url.Punycode

def digitChar (d : Nat) : Char := if d < 26 then Char.ofNat (97 + d) else Char.ofNat (22 + d)

/-- The least value of a digit that has another one behind it. -/
def threshold (place bias : Nat) : Nat :=
  if place ≤ bias then 1 else if bias + 26 ≤ place then 26 else place - bias

theorem threshold_pos (place bias : Nat) : 0 < threshold place bias := by
  unfold threshold; split
  · omega
  · split <;> omega

def encodeNumber (bias place n : Nat) : List Char :=
  let t := threshold place bias
  if h : n < t then [digitChar n]
  else
    have : (n - t) / (36 - t) < n := by
      have := threshold_pos place bias
      have := Nat.div_le_self (n - t) (36 - t)
      omega
    digitChar (t + (n - t) % (36 - t)) :: encodeNumber bias (place + 36) ((n - t) / (36 - t))
termination_by n

def shrink (delta bias : Nat) : Nat :=
  if 455 < delta then shrink (delta / 35) (bias + 36) else bias + 36 * delta / (delta + 38)
termination_by delta
decreasing_by exact Nat.div_lt_self (by omega) (by omega)

/-- The bias after a distance; `count` characters have been written then. -/
def adapt (delta count : Nat) (isFirst : Bool) : Nat :=
  let delta := if isFirst then delta / 700 else delta / 2
  shrink (delta + delta / count) 0

/-- What has been written, the distance so far, and the number of characters written. -/
structure Progress where
  digits : List Char
  delta : Nat
  bias : Nat
  count : Nat

/-- Passes over a character while those with the value `value` are written. -/
def pass (basic value : Nat) (p : Progress) (c : Char) : Progress :=
  if c.toNat < value then { p with delta := p.delta + 1 }
  else if c.toNat = value then
    ⟨p.digits ++ encodeNumber p.bias 36 p.delta, 0,
      adapt p.delta (p.count + 1) (p.count == basic), p.count + 1⟩
  else p

/-- Writes the characters with the given values, which increase from `next` on. -/
def encodeValues (label : List Char) (basic : Nat) : List Nat → Nat → Progress → List Char
  | [], _, p => p.digits
  | value :: rest, next, p =>
    let p := { p with delta := p.delta + (value - next) * (p.count + 1) }
    let p := label.foldl (pass basic value) p
    encodeValues label basic rest (value + 1) { p with delta := p.delta + 1 }

def encode (label : List Char) : List Char :=
  let basic := label.filter (·.toNat < 0x80)
  let values := ((label.filter (0x80 ≤ ·.toNat)).map Char.toNat).mergeSort.eraseDups
  basic ++ (if basic.isEmpty then [] else ['-']) ++
    encodeValues label basic.length values 0x80 ⟨[], 0, 72, basic.length⟩

example : String.ofList (encode "bücher".toList) = "bcher-kva" := by cbv

end FlowScript.Url.Punycode
