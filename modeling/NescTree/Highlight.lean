import NescTree.Logged
import NescTree.Settings
import NescTree.Text.Lines

/-!
# Highlighting

Highlighted output is marked up for a terminal or a web page.  This module chooses
the kind of markup, checks that the style exists, and cleans the text that is marked
up.  The markup itself is left to the display.
-/

namespace NescTree.Highlight

def styles : List String :=
  ["abap", "algol", "algol_nu", "arduino", "autumn", "borland", "bw", "coffee", "colorful",
   "default", "dracula", "emacs", "friendly", "friendly_grayscale", "fruity", "github-dark",
   "gruvbox-dark", "gruvbox-light", "igor", "inkpot", "lightbulb", "lilypond", "lovelace",
   "manni", "material", "monokai", "murphy", "native", "nord", "nord-darker", "one-dark",
   "paraiso-dark", "paraiso-light", "pastie", "perldoc", "rainbow_dash", "rrt", "sas",
   "solarized-dark", "solarized-light", "staroffice", "stata-dark", "stata-light", "tango",
   "trac", "vim", "vs", "xcode", "zenburn"]

inductive Markup where
  | html
  | terminal
  deriving DecidableEq, Repr

def Markup.name : Markup → String
  | .html => "HTML"
  | .terminal => "Terminal256"

def checkStyle : Value → Except Fault Unit
  | .text name => if styles.contains name then .ok () else .error (.unknownStyle name)
  | .list items => .error (.styleNotAKey (Value.list items).type)
  | .table entries => .error (.styleNotAKey (Value.table entries).type)
  | value => .error (.styleNotText value.type)

/-- The markup that some settings ask for, in a style that has to exist. -/
def markup (settings : Settings) : Except Fault Markup := do
  checkStyle (← settings.get "style")
  return if settings.isOn "html" then .html else .terminal

def stripLineFeeds (text : List Char) : List Char :=
  let isLineFeed := fun char => char == '\n'
  ((text.dropWhile isLineFeed).reverse.dropWhile isLineFeed).reverse

/-- Drop a byte order mark at the start. -/
def dropMark : List Char → List Char
  | '\ufeff' :: rest => rest
  | text => text

/-- A text without line feeds at its ends, but with one after it. -/
def clean (text : String) : String :=
  String.ofList (stripLineFeeds (Text.unifyNewlines (dropMark text.toList)) ++ ['\n'])

/-- The text of highlighted output, without its markup. -/
def apply (settings : Settings) (text : String) : Logged String := do
  let chosen ← .ofExcept (markup settings)
  .report ⟨.debug, .highlight, "Highlighting with " ++ chosen.name⟩
  return clean text

end NescTree.Highlight
