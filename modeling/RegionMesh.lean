import RegionMesh.Editor.Call
import RegionMesh.Grid
import RegionMesh.Raster.Memory
import RegionMesh.Raster.Stream
import RegionMesh.Region.Report
import RegionMesh.Proofs.Connectivity.Elements
import RegionMesh.Proofs.Connectivity.WellFormed
import RegionMesh.Proofs.Connectivity.Corner
import RegionMesh.Proofs.CyclicList
import RegionMesh.Proofs.Answers
import RegionMesh.Proofs.Connectivity.Placement
import RegionMesh.Proofs.Connectivity.Attachment
import RegionMesh.Proofs.Connectivity.Attached
import RegionMesh.Proofs.Connectivity.Removed
import RegionMesh.Proofs.Connectivity.Detached
import RegionMesh.Proofs.Connectivity.Renamed
import RegionMesh.Proofs.Connectivity.Checked
import RegionMesh.Proofs.Connectivity.Accepted
import RegionMesh.Proofs.Mesh.Lookup
import RegionMesh.Proofs.Mesh.Sound
import RegionMesh.Proofs.Editor.StaleCorners
import RegionMesh.Proofs.Editor.Orderly
import RegionMesh.Proofs.Editor.Refinement
import RegionMesh.Proofs.Connectivity.Adjacency
import RegionMesh.Proofs.Mesh.Adjacency
import RegionMesh.Proofs.Connectivity.Turns
import RegionMesh.Proofs.Mesh.Fitting
import RegionMesh.Proofs.Mesh.Strip
import RegionMesh.Proofs.Mesh.InsertionOrder
import RegionMesh.Proofs.DisjointSets
import RegionMesh.Proofs.DisjointSets.Calls
import RegionMesh.Proofs.DisjointSets.Ranks
import RegionMesh.Proofs.Connectivity.Rings
import RegionMesh.Proofs.Region.Roots
import RegionMesh.Proofs.Region.Growth
import RegionMesh.Proofs.Region.Report
import RegionMesh.Proofs.Region.Neighbors
import RegionMesh.Proofs.Geometry
import RegionMesh.Proofs.Region.Representative
import RegionMesh.Proofs.Connectivity.Extended
import RegionMesh.Proofs.Mesh.Appended
import RegionMesh.Proofs.Mesh.Placed
import RegionMesh.Proofs.Action
import RegionMesh.Proofs.Sink.Calls
import RegionMesh.Proofs.Sink.Recorded
import RegionMesh.Proofs.Sink.InStep
import RegionMesh.Proofs.Sink.ById
import RegionMesh.Proofs.Sink.ByPosition
import RegionMesh.Proofs.Sink.Twins
import RegionMesh.Proofs.Raster.Script
import RegionMesh.Proofs.Raster.Blocks
import RegionMesh.Proofs.Raster.Reported
import RegionMesh.Proofs.Raster.Append
import RegionMesh.Proofs.Raster.BlockCalls
import RegionMesh.Proofs.Raster.Cells
import RegionMesh.Proofs.Raster.Built
import RegionMesh.Proofs.Raster.Meshed
import RegionMesh.Proofs.Region.Partition
import RegionMesh.Proofs.Mesh.BothSides
import RegionMesh.Proofs.Raster.Regions
import RegionMesh.Proofs.Grid.Cells
import RegionMesh.Proofs.Grid.Built
import RegionMesh.Proofs.Grid.Shape
import RegionMesh.Proofs.Connectivity.Added
import RegionMesh.Proofs.Connectivity.Refused
import RegionMesh.Proofs.Raster.Tiles
import RegionMesh.Proofs.Mesh.Mirror
import RegionMesh.Proofs.Grid.Streamed
import RegionMesh.Proofs.Connectivity.Deleted
import RegionMesh.Proofs.Editor.Refusals
import RegionMesh.Proofs.Connectivity.Endless
import RegionMesh.Proofs.Connectivity.Compacted
import RegionMesh.Proofs.Mesh.Compacted
import RegionMesh.Proofs.Raster.Calls
