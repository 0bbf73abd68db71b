import Fluent.Library.CharClass
import Fluent.Library.RegexReplace
import Fluent.Spacy.Hash

open Fluent.Library

namespace Fluent.Llm

open Fluent.Spacy (Text)
open Regex CharRegex

def digits : List ClassItem := [.range '0' '9']

def letters : List ClassItem := [.range 'a' 'z', .range 'A' 'Z']

def alnum : List ClassItem := letters ++ digits

def chars (s : String) : List ClassItem := s.toList.map fun c => .range c c

def emailRe : Pattern CharClass where
  core := cat [plus (oneOf (alnum ++ chars "._%+-")), one '@', plus (oneOf (alnum ++ chars ".-")), one '.',
    atLeast 2 (oneOf letters)]
  isBounded := false

def apiKeyRe : Pattern CharClass where
  core := ignoreCase (cat [
    alts [cat [lit "api", opt (oneOf (chars "_-")), lit "key"], lit "apikey", lit "secret", lit "token"],
    star space, oneOf (chars "=:"), star space, atLeast 16 (oneOf (alnum ++ chars "_-"))])
  isBounded := false

def ipv4Re : Pattern CharClass where
  core := cat [between 1 3 digit, one '.', between 1 3 digit, one '.', between 1 3 digit, one '.', between 1 3 digit]
  isBounded := true

def phoneUsRe : Pattern CharClass where
  core := cat [exactly 3 digit, opt (oneOf (chars "-.")), exactly 3 digit, opt (oneOf (chars "-.")), exactly 4 digit]
  isBounded := true

def creditCardRe : Pattern CharClass where
  core := cat [exactly 4 digit, opt (oneOf (chars "-" ++ [.space])), exactly 4 digit, opt (oneOf (chars "-" ++ [.space])),
    exactly 4 digit, opt (oneOf (chars "-" ++ [.space])), exactly 4 digit]
  isBounded := true

def ssnUsRe : Pattern CharClass where
  core := cat [exactly 3 digit, one '-', exactly 2 digit, one '-', exactly 4 digit]
  isBounded := true

def ninoUkRe : Pattern CharClass where
  core := cat [exactly 2 (oneOf [.range 'A' 'Z']), exactly 6 digit, oneOf [.range 'A' 'Z']]
  isBounded := true

def sinCaRe : Pattern CharClass where
  core := cat [exactly 3 digit, one '-', exactly 3 digit, one '-', exactly 3 digit]
  isBounded := true

def bearerRe : Pattern CharClass where
  core := cat [lit "Bearer", plus space, atLeast 8 (oneOf (alnum ++ chars "_-"))]
  isBounded := false

def awsKeyRe : Pattern CharClass where
  core := cat [lit "AKIA", exactly 16 (oneOf [.range '0' '9', .range 'A' 'Z'])]
  isBounded := true

def genericApiKeyRe : Pattern CharClass where
  core := atLeast 32 (oneOf alnum)
  isBounded := true

def ipv6Re : Pattern CharClass where
  core :=
    let hex := oneOf [.range '0' '9', .range 'a' 'f', .range 'A' 'F']
    cat [exactly 7 (cat [between 1 4 hex, one ':']), between 1 4 hex]
  isBounded := true

section Anonymize

variable (U : Unicode)

def replaceAll (re : Pattern CharClass) (text : Text) (placeholder : String) : Text :=
  Regex.replaceAll (CharClass.reading U) re.regex placeholder.toList text

def anonymize (text : Text) : Text :=
  let text := replaceAll U emailRe text "[EMAIL]"
  let text := replaceAll U creditCardRe text "[CREDIT_CARD]"
  let text := replaceAll U ssnUsRe text "[SSN]"
  let text := replaceAll U ninoUkRe text "[NINO]"
  let text := replaceAll U sinCaRe text "[SIN]"
  let text := replaceAll U bearerRe text "[BEARER_TOKEN]"
  let text := replaceAll U awsKeyRe text "[AWS_KEY]"
  let text := replaceAll U genericApiKeyRe text "[API_KEY]"
  let text := replaceAll U ipv6Re text "[IPv6]"
  let text := replaceAll U ipv4Re text "[IP_ADDRESS]"
  let text := replaceAll U phoneUsRe text "[PHONE]"
  replaceAll U apiKeyRe text "[REDACTED]"

end Anonymize

end Fluent.Llm
