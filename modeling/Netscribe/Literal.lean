import Netscribe.Number.Decimal

/-!
# Python literals

Strings are written between single quotes, or between double quotes if they hold a single quote and
no double quote; the backslash, the delimiter and the three line and tab characters are escaped and
all else stands for itself. Floats have a point or an exponent, so that they never read as integers.
-/

namespace Netscribe.Literal

def singleQuote : Char := '\x27'

def doubleQuote : Char := '"'

def delimiter (cs : List Char) : Char :=
  if cs.contains singleQuote && !cs.contains doubleQuote then doubleQuote else singleQuote

def escape (delimiter : Char) (c : Char) : List Char :=
  if c = '\\' then ['\\', '\\']
  else if c = '\n' then ['\\', 'n']
  else if c = '\r' then ['\\', 'r']
  else if c = '\t' then ['\\', 't']
  else if c = delimiter then ['\\', delimiter]
  else [c]

def quote (cs : List Char) : List Char :=
  delimiter cs :: (cs.flatMap (escape (delimiter cs)) ++ [delimiter cs])

def string (s : String) : String := String.ofList (quote s.toList)

/-- Floats are positional from `1e-04` up to, and without, `1e+16`, and show a point there. -/
def floatLayout : Decimal.Layout :=
  { least := -4, limit := 16, pointed := true,
    nan := "float('nan')", infinity := "float('inf')", negativeInfinity := "-float('inf')" }

def float (x : Binary64) : String := x.render floatLayout

end Netscribe.Literal
