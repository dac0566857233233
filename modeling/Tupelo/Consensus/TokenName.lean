import Tupelo.Consensus.Dag

/-!
# Token names

The names of tokens and how a transaction's name is completed to the name of a token of the
tree. Within a tree a token is known by the string of its name, the key it has under
`_tupelo/tokens`.

Go ranges over a map in any order. A function that does takes the order as an argument.
-/

namespace Tupelo

open Infra

/-- An order in which the entries of a map are ranged over. -/
structure RangeOrder where
  order : List (String × Obj Cid) → List (String × Obj Cid)
  perm : ∀ es, (order es).Perm es

namespace RangeOrder

/-- As the entries come. -/
def plain : RangeOrder := ⟨id, fun es => List.Perm.refl es⟩

/-- `for k, v := range m`. -/
def range (ord : RangeOrder) (fields : List (String × Obj Cid)) : List (String × Obj Cid) :=
  ord.order (Obj.entries fields)

theorem lookup_of_mem_range {ord : RangeOrder} {fields : List (String × Obj Cid)} {k : String}
    {v : Obj Cid} (h : (k, v) ∈ ord.range fields) : fields.lookup k = some v :=
  Obj.lookup_of_mem_entries ((ord.perm _).mem_iff.mp h)

end RangeOrder

/-- `strings.Split` at a single character. -/
def split (s : String) (sep : Char) : List String := (s.toList.splitOn sep).map String.ofList

/-- `strings.Join`. -/
def join (components : List String) (sep : String) : String := sep.intercalate components

/-- `strings.HasPrefix`. -/
def hasPrefix (s p : String) : Bool := p.toList.isPrefixOf s.toList

/-- `strings.TrimPrefix`. -/
def trimPrefix (s p : String) : String :=
  if hasPrefix s p then String.ofList (s.toList.drop p.toList.length) else s

def treePathForAuthentications : String := "_tupelo/authentications"

def treePathForTokens : String := "_tupelo/tokens"

def treePathForStake : String := "_tupelo/stake"

def treePathForData : String := "data"

/-- `DecodePath`. -/
def decodePath (path : String) : Except Fault (List String) :=
  let trimmed := trimPrefix path "/"
  if trimmed = "" then .ok []
  else
    let components := split trimmed '/'
    if components.any (· = "") then
      .error (.error ("malformed path string containing repeated separator: " ++ path))
    else .ok components

theorem decodePath_treePathForTokens :
    decodePath treePathForTokens = .ok ["_tupelo", "tokens"] := by decide +kernel

/-- `TokenName`. -/
structure TokenName where
  chainTreeDID : String
  localName : String
  deriving DecidableEq, Repr

namespace TokenName

/-- `TokenName.String`. -/
def string (tn : TokenName) : String := join [tn.chainTreeDID, tn.localName] ":"

end TokenName

/-- `TokenNameFromString`. -/
def tokenNameFromString (tokenName : String) : TokenName :=
  let components := split tokenName ':'
  { chainTreeDID := join components.dropLast ":", localName := components.getLastD "" }

/-- The names among the keys of a map that have the local name. -/
def matchedTokens (tokenName : String) (tokens : List (String × Obj Cid)) : List TokenName :=
  (tokens.map fun e => tokenNameFromString e.1).filter fun tn => tn.localName = tokenName

/-- `%T` of a value. -/
def goType : Obj Cid → String
  | .null => "<nil>"
  | .uint _ => "uint64"
  | .str _ => "string"
  | .link _ => "cid.Cid"
  | .list _ => "[]interface \x7b\x7d"
  | .map _ => "map[string]interface \x7b\x7d"
  | .other _ => "other"

/-- `CanonicalTokenName`. -/
def canonicalTokenName {L : Ipld} (D : DagLib L) (ord : RangeOrder) (tree : Dag L)
    (defaultChainTreeDID tokenName : String) (requireDefault : Bool) : Except Fault TokenName := do
  if hasPrefix tokenName "did:tupelo:" then
    let tn := tokenNameFromString tokenName
    if requireDefault && tn.chainTreeDID ≠ defaultChainTreeDID then
      .error (.error "invalid chaintree DID in token name")
    else .ok tn
  else
    let tokensPath ← wrapErr "error decoding tokens path: " (decodePath treePathForTokens)
    let (tokensObj, remaining) ← wrapErr "error resolving tokens path: " (D.resolve tree tokensPath)
    if remaining ≠ [] then
      -- probably just haven't established any tokens yet
      .ok { chainTreeDID := defaultChainTreeDID, localName := tokenName }
    else
      match tokensObj with
      | .map tokens =>
        match matchedTokens tokenName (ord.range tokens) with
        | [] => .ok { chainTreeDID := defaultChainTreeDID, localName := tokenName }
        | [matchedToken] => .ok matchedToken
        | _ => .error (.error ("ambiguous token names found for " ++ tokenName ++
            "; please provide full name"))
      | other => .error (.error ("tokens node was a " ++ goType other ++
          "; expected map[string]interface\x7b\x7d"))

end Tupelo
