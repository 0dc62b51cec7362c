import RuleLang.Cursor
import RuleLang.Diagnostic.Record

/-!
Sessions: texts are cut into tokens and phrases are read from them, by any number of scanners and
parsers in turn. All of them report into one list, which a call is handed with all that stands in it
and gives back. Copies of the list are handed out, and belong to whoever asked for them.
-/
namespace RuleLang

open Grammar

/-- A text that is cut into tokens: what is left of it, and where that begins. -/
structure Scanner where
  file : String
  rest : List Char
  place : Position := .start

namespace Scanner

def ofSource (source file : String) : Scanner := { file, rest := source.toList }

/-- Cuts a text that begins at a place into tokens, and reports into a list. -/
def scan (file : String) (place : Position) (text : List Char) (found : List Diagnostic) :
    List Token × Position × List Diagnostic :=
  match text with
  | [] => ([.endOf file place], place, found)
  | c :: rest =>
    let next := place.after (Chunk.read c rest).1.text
    match (Chunk.read c rest).1 with
    | .gap _ => scan file next (Chunk.read c rest).2 found
    | .word w =>
      let (tokens, last, all) :=
        scan file next (Chunk.read c rest).2 (found ++ w.diagnostics file place)
      (w.toToken file place :: tokens, last, all)
termination_by text.length
decreasing_by all_goals exact Chunk.length_read_lt c rest

def tokenize (s : Scanner) (found : List Diagnostic) : List Token × Scanner × List Diagnostic :=
  let (tokens, last, all) := scan s.file s.place s.rest found
  (tokens, { s with rest := [], place := last }, all)

end Scanner

structure Session.Parser where
  source : TokenStream
  options : Options
  position : Nat := 0
  depth : Nat := 0

/-- What a session keeps from one step to the next. Of copies, scanners, lists of tokens and parsers
the last one is the first. -/
structure Session where
  diagnostics : List Diagnostic := []
  copies : List (List Diagnostic) := []
  scanners : List Scanner := []
  tokens : List (List Token) := []
  parsers : List Session.Parser := []

namespace Session

/-- One step of a session. What it works on is told by its index. -/
inductive Step where
  | lex (source file : String)
  /-- Goes on cutting a text, of which only the end is left. -/
  | lexAgain (scanner : Nat)
  | parser (tokens : Nat) (options : Options)
  | parse (parser : Nat) (goal : Goal)
  | error (message : String) (span : Option Span) (production : Option String)
  | takeCopy
  | clearCopy (copy : Nat)
  /-- Looks at each diagnostic of the list as it is at the beginning, and reports an error. -/
  | iterate
  | formatAll
  | records

inductive Answer where
  | nothing
  | tokens (ts : List Token)
  | tree (node : Option Node)
  | fault (f : Fault) (options : Options)
  | diagnostics (ds : List Diagnostic)
  | text (s : String)
  | records (rs : List Json)

inductive Failure where
  /-- The tokens at hand do not end with an end mark. -/
  | unclosedTokens
  | noText
  | noParser
  | noCopy
  | length (e : Span.LengthError)
  deriving DecidableEq

def Failure.message : Failure → String
  | .unclosedTokens => "token stream must end with an EOF token"
  | .noText => "no text was cut"
  | .noParser => "reading was not begun"
  | .noCopy => "no copy was taken"
  | .length e => e.message

def streamOf (tokens : List Token) : Except Failure TokenStream :=
  match TokenStream.ofList? tokens with
  | some s => .ok s
  | none => .error .unclosedTokens

def iterationError : Diagnostic := .error "while iterating" none none

def report (s : Session) (d : Diagnostic) : Session :=
  { s with diagnostics := s.diagnostics ++ [d] }

/-- Looks at diagnostics one by one, and reports an error for each: the session behind that, and
what was seen. -/
def reportEach (s : Session) : List Diagnostic → Session × List Diagnostic
  | [] => (s, [])
  | d :: ds =>
    let (next, seen) := (s.report iterationError).reportEach ds
    (next, d :: seen)

def step (s : Session) : Step → Except Failure (Session × Answer)
  | .lex source file =>
    let (tokens, scanner, found) := (Scanner.ofSource source file).tokenize s.diagnostics
    let next := { s with
      diagnostics := found, scanners := scanner :: s.scanners, tokens := tokens :: s.tokens }
    .ok (next, .tokens tokens)
  | .lexAgain i =>
    match s.scanners[i]? with
    | none => .error .noText
    | some scanner =>
      let (tokens, scanner, found) := scanner.tokenize s.diagnostics
      let next := { s with
        diagnostics := found, scanners := s.scanners.set i scanner, tokens := tokens :: s.tokens }
      .ok (next, .tokens tokens)
  | .parser i options =>
    match streamOf (s.tokens[i]?.getD []) with
    | .error e => .error e
    | .ok source => .ok ({ s with parsers := { source, options } :: s.parsers }, .nothing)
  | .parse i goal =>
    match s.parsers[i]? with
    | none => .error .noParser
    | some p =>
      let (outcome, σ) := Cursor.read p.source p.options ⟨p.position, p.depth, s.diagnostics⟩ goal
      let behind := { p with position := σ.position, depth := σ.depth }
      let next := { s with diagnostics := σ.diagnostics, parsers := s.parsers.set i behind }
      match outcome with
      | .ok node => .ok (next, .tree node)
      | .error fault => .ok (next, .fault fault p.options)
  | .error message span production =>
    .ok (s.report (.error message span production), .nothing)
  | .takeCopy =>
    .ok ({ s with copies := s.diagnostics :: s.copies }, .diagnostics s.diagnostics)
  | .clearCopy i =>
    match s.copies[i]? with
    | none => .error .noCopy
    | some _ => .ok ({ s with copies := s.copies.set i [] }, .nothing)
  | .iterate =>
    let (next, seen) := s.reportEach s.diagnostics
    .ok (next, .diagnostics seen)
  | .formatAll =>
    match RuleLang.report s.diagnostics with
    | .ok text => .ok (s, .text text)
    | .error e => .error (.length e)
  | .records =>
    match s.diagnostics.mapM Diagnostic.record with
    | .ok rs => .ok (s, .records rs)
    | .error e => .error (.length e)

def hasErrors (s : Session) : Bool := s.diagnostics.any (·.severity = .error)

def run (s : Session) : List Step → Except Failure (List (Session × Answer))
  | [] => .ok []
  | step :: steps =>
    match s.step step with
    | .error e => .error e
    | .ok (next, answer) =>
      match next.run steps with
      | .error e => .error e
      | .ok rest => .ok ((next, answer) :: rest)

end Session

end RuleLang
