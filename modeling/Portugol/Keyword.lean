import Portugol.Text.Alphabetic
import Portugol.Text.UpperCase

/-!
# Keywords

The reserved words of the language. A word is read as a keyword whatever its
case and with or without its accents: both are folded away (`fold`) before the
word is compared with the plain spelling of the keywords. A word that folding
makes longer is no keyword.
-/

namespace Portugol

/-- The reserved words. -/
inductive Keyword
  | se | entao | senao | fim
  | para | ate | faca | enquanto | repita | vezes
  | funcao | procedimento | retorne
  | imprima | imprimaln | leia
  | e | ou | nao | mod | div
  | verdadeiro | falso
  deriving DecidableEq, Repr, Inhabited

namespace Keyword

/-- All keywords. -/
def all : List Keyword :=
  [se, entao, senao, fim, para, ate, faca, enquanto, repita, vezes, funcao, procedimento, retorne,
    imprima, imprimaln, leia, e, ou, nao, mod, div, verdadeiro, falso]

/-- The canonical spelling, with accents. -/
def spelling : Keyword → String
  | se => "SE"
  | entao => "ENTÃO"
  | senao => "SENÃO"
  | fim => "FIM"
  | para => "PARA"
  | ate => "ATÉ"
  | faca => "FAÇA"
  | enquanto => "ENQUANTO"
  | repita => "REPITA"
  | vezes => "VEZES"
  | funcao => "FUNÇÃO"
  | procedimento => "PROCEDIMENTO"
  | retorne => "RETORNE"
  | imprima => "IMPRIMA"
  | imprimaln => "IMPRIMALN"
  | leia => "LEIA"
  | e => "E"
  | ou => "OU"
  | nao => "NÃO"
  | mod => "MOD"
  | div => "DIV"
  | verdadeiro => "VERDADEIRO"
  | falso => "FALSO"

/-- The spelling without accents. -/
def plain : Keyword → String
  | entao => "ENTAO"
  | senao => "SENAO"
  | ate => "ATE"
  | faca => "FACA"
  | funcao => "FUNCAO"
  | nao => "NAO"
  | keyword => keyword.spelling

/-- An upper case letter without its accent, if it is one of those that the
    language's words have. -/
def stripAccent (c : Char) : Char :=
  if c ∈ ['Á', 'À', 'Â', 'Ã', 'Ä'] then 'A'
  else if c ∈ ['É', 'È', 'Ê', 'Ë'] then 'E'
  else if c ∈ ['Í', 'Ì', 'Î', 'Ï'] then 'I'
  else if c ∈ ['Ó', 'Ò', 'Ô', 'Õ', 'Ö'] then 'O'
  else if c ∈ ['Ú', 'Ù', 'Û', 'Ü'] then 'U'
  else if c = 'Ç' then 'C'
  else c

/-- A word in upper case without accents. -/
def fold (word : List Char) : List Char :=
  word.flatMap fun c => (upperCase c).map stripAccent

/-- The keyword that a word is read as. -/
def ofWord? (word : List Char) : Option Keyword :=
  let folded := fold word
  if word.head?.any isAlphabetic && folded.length == word.length then
    all.find? (·.plain == String.ofList folded)
  else none

-- Case and accents do not matter, but the number of letters does.
example : ofWord? "então".toList = some .entao := by decide +kernel
example : ofWord? "eNTAO".toList = some .entao := by decide +kernel
example : ofWord? "ﬁm".toList = none ∧ fold "ﬁm".toList = "FIM".toList := by decide +kernel

/-- Whether a statement starts with this keyword. -/
def startsStatement : Keyword → Bool
  | se | senao | fim | para | enquanto | repita | funcao | procedimento | retorne | imprima
  | imprimaln | leia => true
  | _ => false

/-- Whether the next statement may follow this keyword on the same line. -/
def breaksAfter : Keyword → Bool
  | entao | faca | vezes | senao => true
  | _ => false

end Keyword

end Portugol
