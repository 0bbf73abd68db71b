import Fluent.Spacy.Hash

namespace Fluent.Spacy

inductive Upos where
  | noTag
  | adj
  | adp
  | adv
  | aux
  | conj
  | cconj
  | det
  | intj
  | noun
  | num
  | part
  | pron
  | propn
  | punct
  | sconj
  | sym
  | verb
  | x
  | eol
  | space
deriving DecidableEq

namespace Upos

def upos : List Upos :=
  [adj, adp, adv, aux, cconj, det, intj, noun, num, part, pron, propn, punct, sconj, sym, verb, x]

def asStr : Upos → Text
  | noTag => []
  | adj => "adj".toList
  | adp => "adp".toList
  | adv => "adv".toList
  | aux => "aux".toList
  | conj => "conj".toList
  | cconj => "cconj".toList
  | det => "det".toList
  | intj => "intj".toList
  | noun => "noun".toList
  | num => "num".toList
  | part => "part".toList
  | pron => "pron".toList
  | propn => "propn".toList
  | punct => "punct".toList
  | sconj => "sconj".toList
  | sym => "sym".toList
  | verb => "verb".toList
  | x => "x".toList
  | eol => "eol".toList
  | space => "space".toList

def all : List Upos :=
  [noTag, adj, adp, adv, aux, conj, cconj, det, intj, noun, num, part, pron, propn, punct, sconj, sym, verb, x,
    eol, space]

def parse (s : Text) : Option Upos := all.find? fun p => p.asStr = Text.lower s

end Upos

end Fluent.Spacy
