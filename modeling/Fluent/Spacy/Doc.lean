import Fluent.Spacy.Vocab

namespace Fluent.Spacy

inductive SentStart where
  | notStart
  | unset
  | start
deriving DecidableEq

inductive EntIoB where
  | missing
  | inside
  | outside
  | begin
deriving DecidableEq

structure InterlinguaId where
  bits : UInt64
deriving DecidableEq

structure TokenRecord where
  lexeme : Lexeme
  morph : UInt64
  pos : Upos
  spacy : Bool
  tag : UInt64
  idx : ℕ
  lemmaHash : UInt64
  norm : UInt64
  head : Int32
  dep : UInt64
  lKids : ℕ
  rKids : ℕ
  lEdge : ℕ
  rEdge : ℕ
  sentStart : SentStart
  entIob : EntIoB
  entType : UInt64
  entKbId : UInt64
  entId : UInt64
  interlinguaLemmaId : Option InterlinguaId
  interlinguaEntityId : Option InterlinguaId
  confidence : Option UInt64
deriving DecidableEq

namespace TokenRecord

def new (lexeme : Lexeme) : TokenRecord where
  lexeme := lexeme
  morph := 0
  pos := .noTag
  spacy := false
  tag := 0
  idx := 0
  lemmaHash := 0
  norm := 0
  head := 0
  dep := 0
  lKids := 0
  rKids := 0
  lEdge := 0
  rEdge := 0
  sentStart := .unset
  entIob := .missing
  entType := 0
  entKbId := 0
  entId := 0
  interlinguaLemmaId := none
  interlinguaEntityId := none
  confidence := none

def hasHead (t : TokenRecord) : Bool := t.dep != 0

end TokenRecord

/-- The token array; the vocabulary it refers to is passed beside it. -/
abbrev Doc := List TokenRecord

namespace Doc

def orthText (strings : StringStore) (lexeme : Lexeme) : Text := (strings.get lexeme.orth).getD []

def tokenText (strings : StringStore) (doc : Doc) (i : ℕ) : Text :=
  (doc[i]?).elim [] fun t => orthText strings t.lexeme

end Doc

end Fluent.Spacy
