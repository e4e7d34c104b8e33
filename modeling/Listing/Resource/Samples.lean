import Listing.Resource

set_option autoImplicit false

namespace Listing.Resource

def participantsWithDomains : String :=
  " FROM participants p JOIN domains d ON d.id = p.domain_id"

def participants : Resource where
  name := "participants"
  select := "SELECT p.id, p.domain_id, d.name AS domain_name, p.name, p.email, p.role, p.score" ++
    participantsWithDomains
  count := "SELECT COUNT(*)" ++ participantsWithDomains
  sorting :=
    { columns := [("id", "p.id"), ("name", "p.name"), ("score", "p.score"), ("domain", "d.name")]
      fallback := "id" }
  equality :=
    [ { key := "domain_id", column := "p.domain_id", kind := .integer },
      { key := "role", column := "p.role", kind := .text } ]
  searchColumns := ["p.name", "p.email"]
  fields :=
    { entries :=
        [ ("name", { column := "p.name" }),
          ("role", { column := "p.role" }),
          ("domain_name", { column := "d.name" }),
          ("score", { column := "p.score" }),
          ("score_min", { column := "p.score", comparison := some .atLeast }),
          ("score_max", { column := "p.score", comparison := some .atMost }) ] }

def templates : Resource where
  name := "templates"
  select := "SELECT t.id, t.name FROM templates t"
  count := "SELECT COUNT(*) FROM templates t"
  sorting :=
    { columns := [("name", "t.name"), ("updated", "t.updated_at")]
      fallback := "updated" }
  limits := { default := 10, greatest := 50 }
  equality := [{ key := "domain_id", column := "t.domain_id", kind := .integer }]
  searchColumns := ["t.name", "t.description"]
  fields :=
    { entries :=
        [ ("name", { column := "t.name", comparison := some .like }),
          ("updated_after", { column := "t.updated_at", comparison := some .atLeast }) ] }

def minimal : Resource where
  name := "minimal"
  select := "SELECT * FROM missing_table m"
  count := "SELECT COUNT(*) FROM missing_table m"
  sorting := { columns := [("id", "m.id")], fallback := "id" }

end Listing.Resource
