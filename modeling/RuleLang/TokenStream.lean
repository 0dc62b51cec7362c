import RuleLang.Token

/-!
Token streams: the tokens that a reader has in front of it. The last one marks the end of the
source and is never passed; nor is any other end mark before it.
-/
namespace RuleLang

/-- The tokens still ahead, without the end mark that closes the stream, and that mark. -/
structure TokenStream where
  ahead : List Token
  last : Token
  last_eof : last.kind = .eof
  deriving DecidableEq

namespace TokenStream

/-- The stream of a list of tokens, if an end mark closes it. -/
def ofList? (tokens : List Token) : Option TokenStream :=
  match tokens.getLast? with
  | none => none
  | some t => if h : t.kind = .eof then some ⟨tokens.dropLast, t, h⟩ else none

def toList (s : TokenStream) : List Token := s.ahead ++ [s.last]

def current (s : TokenStream) : Token := s.ahead.headD s.last

/-- The stream behind the current token; an end mark stays. -/
def advance (s : TokenStream) : TokenStream :=
  match s.ahead with
  | [] => s
  | t :: rest => if t.kind = .eof then s else { s with ahead := rest }

/-- The tokens behind the first semicolon, or from the first end mark on. -/
def behindSemicolon : List Token → List Token
  | [] => []
  | t :: rest =>
    if t.kind = .eof then t :: rest
    else if t.kind = .semicolon then rest
    else behindSemicolon rest

/-- The stream behind the next semicolon, or at the next end mark. -/
def synchronize (s : TokenStream) : TokenStream := { s with ahead := behindSemicolon s.ahead }

end TokenStream

end RuleLang
