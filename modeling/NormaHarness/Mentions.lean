import NormaHarness.ChatRooms

/-!
# Mentions

The text of a message is scanned once, from left to right, with the character before
the cursor. Whether a character is alphanumeric in the sense of Unicode is a
parameter: the property only decides where the two words for the user end.
-/
namespace NormaHarness.Chat

variable (isAlphanumeric : Char → Bool)

def isAsciiAlphanumeric (c : Char) : Bool :=
  ('0' ≤ c && c ≤ '9') || ('A' ≤ c && c ≤ 'Z') || ('a' ≤ c && c ≤ 'z')

def isWordChar (c : Char) : Bool := isAsciiAlphanumeric c || c == '_'

def isKeyChar (c : Char) : Bool := isAsciiAlphanumeric c || c == '_' || c == '.' || c == '-'

/-- Text after one of the user's names: the name ends there. -/
def nameEnds : List Char → Bool
  | [] => true
  | c :: _ => !isAlphanumeric c && c != '_'

def bareKey (tail : List Char) : Option String :=
  let key := (tail.takeWhile isKeyChar).rdropWhile (· == '.')
  if key.isEmpty then none else some (String.ofList key)

/-- The key that an `@` in front of this text names. -/
def candidateAt (tail : List Char) : Option String :=
  match tail with
  | '{' :: rest =>
      if rest.contains '}' then some (String.ofList (rest.takeWhile (· != '}'))) else none
  | '用' :: '户' :: rest => if nameEnds isAlphanumeric rest then some "用户" else bareKey tail
  | '你' :: rest => if nameEnds isAlphanumeric rest then some "你" else bareKey tail
  | _ => bareKey tail

def candidatesFrom : Option Char → List Char → List String
  | _, [] => []
  | previous, c :: tail =>
      let later := candidatesFrom (some c) tail
      if c = '@' ∧ previous.any isWordChar = false then
        match candidateAt isAlphanumeric tail with
        | some key => key :: later
        | none => later
      else later

def mentionCandidates (text : String) : List String :=
  candidatesFrom isAlphanumeric none text.toList

def toAsciiLower (c : Char) : Char :=
  if 'A' ≤ c ∧ c ≤ 'Z' then Char.ofNat (c.toNat + 32) else c

def isUserMention (key : String) : Bool :=
  key == "你" || key == "用户" || key.toList.map toAsciiLower == "user".toList

def mentionsUser (text : String) : Bool := (mentionCandidates isAlphanumeric text).any isUserMention

/-- One candidate after the other; the first stranger ends the selection. -/
def selectMembers (members : List String) : List String → List String →
    Except ChatError (List String)
  | selected, [] => .ok selected
  | selected, key :: rest =>
      if isUserMention key then selectMembers members selected rest
      else if key ∉ members then .error (.invalid s!"@{key} is not a member of this group")
      else if key ∈ selected then selectMembers members selected rest
      else selectMembers members (selected ++ [key]) rest

def mentionedMembers (text : String) (members : List String) : Except ChatError (List String) :=
  selectMembers members [] (mentionCandidates isAlphanumeric text)

/-- Pairs of the source and a key it mentioned, once for each key. -/
def enqueueFrom (source : String) (members : List String) :
    List String → List (String × String) → List String → List (String × String)
  | _, pending, [] => pending
  | selected, pending, key :: rest =>
      if key ≠ source ∧ key ∈ members ∧ key ∉ selected then
        enqueueFrom source members (selected ++ [key]) (pending ++ [(source, key)]) rest
      else enqueueFrom source members selected pending rest

def enqueueMentions (pending : List (String × String)) (source answer : String)
    (members : List String) : List (String × String) :=
  if mentionsUser isAlphanumeric answer then pending
  else enqueueFrom source members [] pending (mentionCandidates isAlphanumeric answer)

end NormaHarness.Chat
