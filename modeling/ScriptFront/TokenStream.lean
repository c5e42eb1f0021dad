import ScriptFront.Token.Basic

/-!
# Token streams and cursors

A token stream is never empty: it has a last token, which ordinarily marks the
end of the input, and which is never passed. A cursor reads a stream, can mark
a place and come back to it, and remembers the furthest token that was ever
read, with the name of the production that read it first. Coming back does not
change that record.
-/
namespace ScriptFront

/-- A list of tokens with a last one. -/
structure TokenStream where
  body : Array Token
  last : Token
deriving Repr

namespace TokenStream

/-- The stream of a list. An empty list is a stream with an end mark only. -/
def ofList (tokens : List Token) : TokenStream :=
  ⟨tokens.dropLast.toArray, tokens.getLastD (Token.endOfInput Position.start)⟩

def size (s : TokenStream) : Nat := s.body.size + 1

/-- The token with an index; beyond the end it is the last one. -/
def get (s : TokenStream) (index : Nat) : Token :=
  s.body.getD index s.last

end TokenStream

/-- A place in a stream, marked places, and the furthest read. -/
structure TokenCursor where
  stream : TokenStream
  index : Nat
  marks : List Nat
  furthest : Nat
  furthestProduction : String
deriving Repr

/-- Where a failed parse is reported: the furthest token, the token before it,
and the production that read it. -/
structure FurthestRead where
  previous? : Option Token
  token : Token
  production : String
deriving DecidableEq, Repr

namespace TokenCursor

def ofStream (stream : TokenStream) (production : String) : TokenCursor :=
  ⟨stream, 0, [], 0, production⟩

def current (c : TokenCursor) : Token := c.stream.get c.index

def atEnd (c : TokenCursor) : Bool := c.current.kind == .endOfInput

/-- How many tokens are left, the last one included. -/
def remaining (c : TokenCursor) : Nat := c.stream.size - c.index

/-- Marks the current place. -/
def mark (c : TokenCursor) : TokenCursor :=
  { c with marks := c.index :: c.marks }

/-- Goes back to the latest mark and removes it. -/
def reset (c : TokenCursor) : TokenCursor :=
  match c.marks with
  | [] => c
  | index :: marks => { c with index, marks }

/-- Removes the latest mark and stays. -/
def discard (c : TokenCursor) : TokenCursor :=
  { c with marks := c.marks.tail }

/-- Enters the current place into the record of the furthest read, if it is
further than any before. -/
def record (c : TokenCursor) (production : String) : TokenCursor :=
  if c.furthest < c.index then
    { c with furthest := c.index, furthestProduction := production }
  else c

/-- Moves behind the current token, unless it is the last. -/
def step (c : TokenCursor) : TokenCursor :=
  if c.index + 1 < c.stream.size then { c with index := c.index + 1 } else c

/-- Reads the current token on behalf of a production. -/
def next (c : TokenCursor) (production : String) : Token × TokenCursor :=
  (c.current, (c.record production).step)

def furthestRead (c : TokenCursor) : FurthestRead where
  previous? := if c.furthest = 0 then none else some (c.stream.get (c.furthest - 1))
  token := c.stream.get c.furthest
  production := c.furthestProduction

end TokenCursor

end ScriptFront
