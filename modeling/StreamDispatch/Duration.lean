set_option autoImplicit false

/-! # Lengths of time

A length of time in whole nanoseconds. Its text uses the largest of the units s, ms, µs and ns whose
count is not zero, with a decimal fraction without trailing zeros. A clock that ticks once a
millisecond lets a length of time pass at the first tick that is not before its end. -/

namespace StreamDispatch

/-- A length of time. -/
structure Duration where
  nanoseconds : Nat
  deriving DecidableEq, Repr, Inhabited

namespace Duration

def ofMillis (n : Nat) : Duration := ⟨n * 1000000⟩

def ofSeconds (n : Nat) : Duration := ⟨n * 1000000000⟩

def millis (d : Duration) : Nat := d.nanoseconds / 1000000

def ticks (d : Duration) : Nat := (d.nanoseconds + 999999) / 1000000

/-- The decimal fraction `part / 10 ^ places`, without trailing zeros and with a point in front;
nothing for zero. -/
def fraction (part places : Nat) : String :=
  if part = 0 then ""
  else
    let digits := Nat.toDigits 10 part
    let padded := List.replicate (places - digits.length) '0' ++ digits
    String.ofList ('.' :: (padded.reverse.dropWhile (· == '0')).reverse)

def text (d : Duration) : String :=
  let n := d.nanoseconds
  if 1000000000 ≤ n then toString (n / 1000000000) ++ fraction (n % 1000000000) 9 ++ "s"
  else if 1000000 ≤ n then toString (n / 1000000) ++ fraction (n % 1000000) 6 ++ "ms"
  else if 1000 ≤ n then toString (n / 1000) ++ fraction (n % 1000) 3 ++ "µs"
  else toString n ++ "ns"

@[simp] theorem millis_ofMillis (n : Nat) : (ofMillis n).millis = n := by
  simp [millis, ofMillis]

@[simp] theorem ticks_ofMillis (n : Nat) : (ofMillis n).ticks = n := by
  show (n * 1000000 + 999999) / 1000000 = n
  omega

/-- A length of time has passed when its ticks have. -/
theorem ticks_le_iff {d : Duration} {k : Nat} :
    d.ticks ≤ k ↔ d.nanoseconds ≤ k * 1000000 := by
  rw [ticks, Nat.div_le_iff_le_mul_add_pred (by decide)]
  omega

end Duration

end StreamDispatch
