import HttpBackground.ChunkedBody
import HttpBackground.ParsingExpression

/-!
# The grammar of a URL

`uri_grammar`, rule by rule. The number parser behind a decimal octet is a
parameter. The fourth form of an IPv6 address repeats a repetition, so a bracket
that is none of the first three forms is never left.
-/
namespace HttpBackground

namespace UriGrammar

open ParsingExpression StdString ChunkedBody

/-- `qi::char_` of a set. -/
def charIn (set : String) : Rule UInt8 := satisfy fun c => (lit set).contains c

def unreserved : Rule UInt8 := choice (satisfy isAlnum) (charIn "-._~")

def subDelims : Rule UInt8 := charIn "!$&'()*+,;="

def pctEncoded : Rule UInt8 := seq (charIn "%") (times 2 (satisfy isHexDigit))

/-- `unreserved | pct_encoded | sub_delims` and the characters a rule adds. -/
def encodedOr (more : String) : Rule UInt8 :=
  choice unreserved (choice pctEncoded (choice subDelims (charIn more)))

def pchar : Rule UInt8 := encodedOr ":@"

def segment : Rule UInt8 := star pchar

def segmentNz : Rule UInt8 := plus pchar

/-- `*("/" >> segment)` -/
def segments : Rule UInt8 := star (seq (charIn "/") segment)

def pathAbempty : Rule UInt8 := segments

def pathAbsolute : Rule UInt8 := seq (charIn "/") (opt (seq segmentNz segments))

def pathRootless : Rule UInt8 := seq segmentNz segments

def pathEmpty : Rule UInt8 := eps

/-- The path of a URL without an authority. -/
def anyPath : Rule UInt8 := choice pathAbsolute (choice pathRootless pathEmpty)

def scheme : Rule UInt8 := seq (satisfy isAlpha) (star (choice (satisfy isAlnum) (charIn "+.-")))

def userInfo : Rule UInt8 := star (encodedOr ":")

def regName : Rule UInt8 := star (encodedOr "")

def port : Rule UInt8 := star (satisfy isDigit)

/-- `*(pchar | qi::char_("/?"))` -/
def query : Rule UInt8 := star (choice pchar (charIn "/?"))

def fragment : Rule UInt8 := star (choice pchar (charIn "/?"))

def h16 : Rule UInt8 := seq (satisfy isHexDigit) (upTo 3 (satisfy isHexDigit))

/-- `h16 >> ':'` -/
def group : Rule UInt8 := seq h16 (charIn ":")

def ipvfuture : Rule UInt8 :=
  seq (charIn "v") (seq (plus (satisfy isHexDigit)) (seq (charIn ".")
    (plus (choice unreserved (choice subDelims (charIn ":"))))))

section Octet

-- `qi::uint_parser<boost::uint8_t, 10, 1, 3>`
variable (octet : Rule UInt8)

def decOctet : Rule UInt8 := seq (notAt (seq (charIn "0") (satisfy isDigit))) octet

def ipv4address : Rule UInt8 :=
  seq (decOctet octet) (times 3 (seq (charIn ".") (decOctet octet)))

def ls32 : Rule UInt8 := choice (seq h16 (seq (charIn ":") h16)) (ipv4address octet)

/-- The forms of an address that begin with six groups, none and one. -/
def ipv6Leading : Rule UInt8 :=
  choice (seq (times 6 group) (ls32 octet))
    (choice (seq (exactly (lit "::")) (seq (times 5 group) (ls32 octet)))
      (seq h16 (seq (exactly (lit "::")) (seq (times 4 group) (ls32 octet)))))

/-- The forms behind `+(*(h16 >> ':')) >> h16`. -/
def ipv6Trailing : Rule UInt8 :=
  choice (seq (seq (times 2 (star group)) h16)
      (seq (exactly (lit "::")) (seq (times 2 group) (ls32 octet))))
    (choice (seq (seq (times 3 (star group)) h16)
        (seq (exactly (lit "::")) (seq group (ls32 octet))))
      (choice (seq (seq (times 4 (star group)) h16) (seq (exactly (lit "::")) (ls32 octet)))
        (choice (seq (seq (times 5 (star group)) h16) (seq (exactly (lit "::")) h16))
          (seq (seq (times 6 (star group)) h16) (exactly (lit "::"))))))

def ipv6address : Rule UInt8 :=
  choice (ipv6Leading octet)
    (choice (seq (seq (plus (star group)) h16)
        (seq (exactly (lit "::")) (seq (times 3 group) (ls32 octet))))
      (ipv6Trailing octet))

def ipLiteral : Rule UInt8 :=
  seq (charIn "[") (seq (choice (ipv6address octet) ipvfuture) (charIn "]"))

def host : Rule UInt8 := choice (ipLiteral octet) (choice (ipv4address octet) regName)

end Octet

/-- The attributes of the two alternatives of `hier_part`; the second leaves the
user, the host and the port empty. -/
inductive HierPart
  | authority (userInfo : Option StdString) (host : StdString) (port : Option StdString)
      (path : StdString)
  | noAuthority (path : StdString)
  deriving DecidableEq, Repr

/-- `uri_parts` -/
structure Parts where
  scheme : StdString
  hierPart : HierPart
  query : Option StdString
  fragment : Option StdString
  deriving DecidableEq, Repr

/-- `-(c >> rule)` -/
def optional (c : String) (r : Rule UInt8) (input : StdString) :
    Outcome UInt8 (Option StdString) :=
  (((charIn c).run input).bind fun _ rest =>
    (r.run rest).bind fun text rest => .matched (some text) rest).orElse (.matched none input)

/-- `("//" >> user_info >> '@') | "//"` -/
def authorityStart (input : StdString) : Outcome UInt8 (Option StdString) :=
  (((exactly (lit "//")).run input).bind fun _ rest =>
    (userInfo.run rest).bind fun text rest =>
      ((charIn "@").run rest).bind fun _ rest => .matched (some text) rest).orElse
  (((exactly (lit "//")).run input).bind fun _ rest => .matched none rest)

section Octet

variable (octet : Rule UInt8)

def authority (input : StdString) : Outcome UInt8 HierPart :=
  (authorityStart input).bind fun userInfo rest =>
    ((host octet).run rest).bind fun host rest =>
      (optional ":" port rest).bind fun port rest =>
        (pathAbempty.run rest).bind fun path rest =>
          .matched (.authority userInfo host port path) rest

def hierPart (input : StdString) : Outcome UInt8 HierPart :=
  (authority octet input).orElse
    ((anyPath.run input).bind fun path rest => .matched (.noAuthority path) rest)

def start (input : StdString) : Outcome UInt8 Parts :=
  (scheme.run input).bind fun scheme rest =>
    ((charIn ":").run rest).bind fun _ rest =>
      (hierPart octet rest).bind fun hierPart rest =>
        (optional "?" query rest).bind fun query rest =>
          (optional "#" fragment rest).bind fun fragment rest =>
            .matched ⟨scheme, hierPart, query, fragment⟩ rest

end Octet

end UriGrammar

end HttpBackground
