import TapeMachine.Text

/-! The methods of values, by the kind of value that has them. -/

namespace TapeMachine.Expression

inductive TextMethod where
  | capitalize
  | codepointOrds
  | codepoints
  | count
  | elemOrds
  | elems
  | endswith
  | find
  | format
  | index
  | isalnum
  | isalpha
  | isdigit
  | islower
  | isspace
  | istitle
  | isupper
  | join
  | lower
  | lstrip
  | partition
  | dropLead
  | dropTail
  | replace
  | rfind
  | rindex
  | rpartition
  | rsplit
  | rstrip
  | split
  | splitlines
  | startswith
  | strip
  | title
  | upper
  deriving DecidableEq, Repr

inductive ListMethod where
  | append
  | clear
  | extend
  | index
  | insert
  | pop
  | remove
  deriving DecidableEq, Repr

inductive DictMethod where
  | clear
  | get
  | items
  | keys
  | pop
  | popitem
  | setdefault
  | update
  | values
  deriving DecidableEq, Repr

inductive Method where
  | string (m : TextMethod)
  | bytesElems
  | list (m : ListMethod)
  | dict (m : DictMethod)
  deriving DecidableEq, Repr

namespace Method

def ofStrings : List (Text × Method) :=
  [("capitalize", .capitalize), ("codepoint_ords", .codepointOrds), ("codepoints", .codepoints),
    ("count", .count), ("elem_ords", .elemOrds), ("elems", .elems), ("endswith", .endswith),
    ("find", .find), ("format", .format), ("index", .index), ("isalnum", .isalnum),
    ("isalpha", .isalpha), ("isdigit", .isdigit), ("islower", .islower), ("isspace", .isspace),
    ("istitle", .istitle), ("isupper", .isupper), ("join", .join), ("lower", .lower),
    ("lstrip", .lstrip), ("partition", .partition), ("removeprefix", .dropLead),
    ("removesuffix", .dropTail), ("replace", .replace), ("rfind", .rfind),
    ("rindex", .rindex), ("rpartition", .rpartition), ("rsplit", .rsplit), ("rstrip", .rstrip),
    ("split", .split), ("splitlines", .splitlines), ("startswith", .startswith),
    ("strip", .strip), ("title", .title), ("upper", .upper)].map
    fun ((name, m) : String × TextMethod) => (text name, string m)

def ofBytes : List (Text × Method) := [(text "elems", bytesElems)]

def ofLists : List (Text × Method) :=
  [("append", .append), ("clear", .clear), ("extend", .extend), ("index", .index),
    ("insert", .insert), ("pop", .pop), ("remove", .remove)].map
    fun ((name, m) : String × ListMethod) => (text name, list m)

def ofDicts : List (Text × Method) :=
  [("clear", .clear), ("get", .get), ("items", .items), ("keys", .keys), ("pop", .pop),
    ("popitem", .popitem), ("setdefault", .setdefault), ("update", .update),
    ("values", .values)].map
    fun ((name, m) : String × DictMethod) => (text name, dict m)

def name (m : Method) : Text :=
  (((ofStrings ++ ofBytes ++ ofLists ++ ofDicts).find? (·.2 = m)).map (·.1)).getD []

end Method

end TapeMachine.Expression
