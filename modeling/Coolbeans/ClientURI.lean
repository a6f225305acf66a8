import Coolbeans.CommandLine
import Coolbeans.QueryString

/-!
# Client URIs

The names that the cluster gives to the clients of its proxies, `client_uri.go` of the
package `store`: a URI with the ids of the proxy and of the client in its query.  The
package `net/url` is taken as specified.  `Parse` is modelled on the URIs that
`ToClientID` writes: those with the scheme, the host and the empty path written there.
-/

namespace Coolbeans

abbrev ProxyID := Bytes

/-- A client of a proxy.  `Validate` holds of it: neither id is empty. -/
@[ext]
structure ClientURI where
  proxyID : ProxyID
  clientID : ClientID
  valid : proxyID ≠ [] ∧ clientID ≠ []
  deriving DecidableEq

namespace ClientURI

/-- What comes before the query of a client URI. -/
def base : Bytes := text "client://id?"

/-- `newClientUri`, which fails on an empty id. -/
def new (proxyID : ProxyID) (clientID : ClientID) : Option ClientURI :=
  if valid : proxyID ≠ [] ∧ clientID ≠ [] then some ⟨proxyID, clientID, valid⟩ else none

/-- `ToClientID`; the names of the query are written in alphabetical order. -/
def toClientID (uri : ClientURI) : ClientID :=
  base ++ (QueryString.writePair (text "client") uri.clientID ++
    38 :: QueryString.writePair (text "proxy") uri.proxyID)

/-- `ParseClientURI` -/
def parse (clientID : ClientID) : Option ClientURI :=
  if base.isPrefixOf clientID then
    let query := QueryString.parse (clientID.drop base.length)
    new (QueryString.get (text "proxy") query) (QueryString.get (text "client") query)
  else none

theorem new_eq (uri : ClientURI) : new uri.proxyID uri.clientID = some uri := by
  rw [new, dif_pos uri.valid]

theorem ids_of_new {proxyID : ProxyID} {clientID : ClientID} {uri : ClientURI}
    (made : new proxyID clientID = some uri) :
    uri.proxyID = proxyID ∧ uri.clientID = clientID := by
  unfold new at made
  split at made
  · cases made
    exact ⟨rfl, rfl⟩
  · cases made

/-- A client URI reads back as what was written. -/
theorem parse_toClientID (uri : ClientURI) : parse uri.toClientID = some uri := by
  have isBase : base.isPrefixOf uri.toClientID = true := by
    rw [ List.isPrefixOf_iff_prefix]
    exact ⟨_, rfl⟩
  have proxyFirst : (text "proxy" == text "client") = false := by decide
  rw [parse, if_pos isBase, toClientID, List.drop_left, QueryString.parse_writePairs]
  simp only [QueryString.get, List.lookup_cons, beq_self_eq_true, proxyFirst, Option.getD_some]
  exact new_eq uri

theorem toClientID_injective {first second : ClientURI}
    (same : first.toClientID = second.toClientID) : first = second := by
  have parsed := parse_toClientID first
  rw [same, parse_toClientID] at parsed
  exact (Option.some.inj parsed).symm

end ClientURI

end Coolbeans
