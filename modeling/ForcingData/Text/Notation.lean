/-! # The notation of patterns

Messages show patterns as regular expressions, in which some characters need a backslash before
them to stand for themselves. -/

namespace ForcingData.Text

def isMeta (c : Char) : Bool := "\\.+*?()|[]\x7b\x7d^$#&-~".toList.contains c

def escapeMeta (cs : List Char) : List Char :=
  cs.flatMap fun c => if isMeta c then ['\\', c] else [c]

end ForcingData.Text
