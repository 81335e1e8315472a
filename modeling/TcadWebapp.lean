import TcadWebapp.Api.Proofs.RateLimit
import TcadWebapp.Auth.Proofs.Concurrent
import TcadWebapp.Auth.Proofs.Invites
import TcadWebapp.Auth.Proofs.Registration
import TcadWebapp.Auth.Proofs.Rules
import TcadWebapp.Catalog.Proofs.Clauses
import TcadWebapp.Catalog.Proofs.Completion
import TcadWebapp.Catalog.Proofs.Malformed
import TcadWebapp.Devsim.Proofs.Build
import TcadWebapp.Devsim.Proofs.ClientSpec
import TcadWebapp.Devsim.Proofs.Doping
import TcadWebapp.Devsim.Proofs.Doubles
import TcadWebapp.Devsim.Proofs.Editing
import TcadWebapp.Devsim.Proofs.Figures
import TcadWebapp.Devsim.Proofs.FirstSpec
import TcadWebapp.Devsim.Proofs.Grounded
import TcadWebapp.Devsim.Proofs.Metal
import TcadWebapp.Devsim.Proofs.Names
import TcadWebapp.Devsim.Proofs.Page
import TcadWebapp.Devsim.Proofs.Picture
import TcadWebapp.Devsim.Proofs.Points
import TcadWebapp.Devsim.Proofs.Ramp
import TcadWebapp.Devsim.Proofs.SpecDiff
import TcadWebapp.Devsim.Proofs.Stable
import TcadWebapp.Devsim.Proofs.Stream
import TcadWebapp.Devsim.Run
import TcadWebapp.Editor.Proofs.Browser
import TcadWebapp.Editor.Proofs.Persist
import TcadWebapp.Editor.Proofs.Run
import TcadWebapp.Editor.Proofs.Saves
import TcadWebapp.Editor.Proofs.TabLabels
import TcadWebapp.Jobs.Proofs.Cache
import TcadWebapp.Jobs.Proofs.Cancel
import TcadWebapp.Jobs.Proofs.Cap
import TcadWebapp.Jobs.Proofs.LifeCycle
import TcadWebapp.Jobs.Proofs.Record
import TcadWebapp.Jobs.Proofs.Stale
import TcadWebapp.Misc.Dict
import TcadWebapp.Plotting.Proofs.Layers
import TcadWebapp.Plotting.Proofs.Shading
import TcadWebapp.Plotting.Proofs.Zoom
import TcadWebapp.Remesh.Proofs.Assemble
import TcadWebapp.Remesh.Proofs.Degenerate
import TcadWebapp.Remesh.Proofs.Geo
import TcadWebapp.Remesh.Proofs.Lines
import TcadWebapp.Remesh.Proofs.Loops
import TcadWebapp.Remesh.Proofs.Nearby
import TcadWebapp.Remesh.Proofs.Neighbors
import TcadWebapp.Remesh.Proofs.Nesting
import TcadWebapp.Remesh.Proofs.Outer
import TcadWebapp.Remesh.Proofs.Thinning
import TcadWebapp.Runner.Proofs.Log
import TcadWebapp.Runner.Proofs.Recover
import TcadWebapp.StrParser.Proofs.RoundTrip
import TcadWebapp.Suprem.Proofs.EtchElem
import TcadWebapp.Suprem.Proofs.FESolve
import TcadWebapp.Suprem.Proofs.Names
import TcadWebapp.Suprem.Proofs.SplitRegions
import TcadWebapp.Workspace.Proofs.Delete
import TcadWebapp.Workspace.Proofs.Paths
import TcadWebapp.Workspace.Proofs.Service
